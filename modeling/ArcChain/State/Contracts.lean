/-
`execute_tx`, the contract arms: `WasmCall` and `DeployContract`.

The WASM engine and the host functions it calls are one third-party step
(`Externals.runWasm`); what the arms write before and after it, and which
of those writes a failure leaves behind, is the source's.
-/
import ArcChain.State.Payments

namespace ArcChain

open Word StoreProg

structure GasMeter where
  limit : Nat
  consumed : Nat
deriving DecidableEq, Repr

inductive GasError where
  | outOfGas (limit consumed : Nat)
  | overflow
deriving DecidableEq, Repr

/-- The `Display` form of a gas error. -/
def GasError.display : GasError → String
  | outOfGas limit consumed => s!"out of gas: limit={limit}, consumed={consumed}"
  | overflow => "gas counter overflow"

/-- The meter afterwards, and the error if the charge fails. -/
def GasMeter.charge (gas : GasMeter) (amount : Nat) : GasMeter × Option GasError :=
  match checkedAdd gas.consumed amount with
  | none => (gas, some .overflow)
  | some consumed =>
    if gas.limit < consumed then
      ({ gas with consumed := gas.limit }, some (.outOfGas gas.limit consumed))
    else ({ gas with consumed := consumed }, none)

/-- `if let Err(e) = gas.charge(amount) { return Err(..) }`. -/
def chargeGas (gas : GasMeter) (amount : Nat) : Exec GasMeter :=
  match gas.charge amount with
  | (gas, none) => pure gas
  | (_, some e) => throw (.executionError s!"gas: {e.display}")

/-- Whether the code starts with `WASM_MAGIC`. -/
def isWasm (bytecode : Bytes) : Bool := bytecode.take 4 == [0x00, 0x61, 0x73, 0x6d]

/-- The gas limit a call passes to the engine. -/
def WasmCallBody.wasmGasLimit (body : WasmCallBody) : Nat :=
  if 0 < body.gasLimit then body.gasLimit else 10000000

/-- What `TxBody::WasmCall` gives the engine. -/
def WasmCallBody.input (body : WasmCallBody) (c : Context) (tx : Transaction) (bytecode : Bytes)
    (storage : Option (FinMap Hash256 Bytes)) : WasmInput where
  bytecode := bytecode
  function := body.function
  storage := storage.getD ∅
  gasLimit := body.wasmGasLimit
  caller := tx.sender
  selfAddress := body.contract
  callValue := body.value
  blockHeight := c.height

/-- The value transfer of a call: the contract's balance is set to the value, the sender's
    debit stays in the detached copy. -/
def sendCallValue (body : WasmCallBody) (sender : Account) : Exec Account :=
  if 0 < body.value then do
    requireBalance sender.balance body.value
    let contractAccount ← getOrCreateAccount body.contract
    storeAccount body.contract (contractAccount.withBalance body.value)
    pure (sender.withBalance (sender.balance - body.value))
  else pure sender

/-- The writes of a call that the engine reports as failed: not logged. -/
def revertCallValue (tx : Transaction) (body : WasmCallBody) (sender : Account) : Exec Unit :=
  if 0 < body.value then do
    insertAccount tx.sender (sender.withBalance body.value)
    match ← readAccount body.contract with
    | some contractAccount =>
      insertAccount body.contract
        (contractAccount.withBalance (contractAccount.balance - body.value))
    | none => pure ()
  else pure ()

/-- The part of `TxBody::WasmCall` after the engine has returned. -/
def finishWasmCall (tx : Transaction) (body : WasmCallBody) (sender : Account) (gas : GasMeter) :
    WasmOutcome → Exec GasMeter
  | .compileError e => throw (.executionError s!"WASM compile: {e}")
  | .instantiateError e => throw (.executionError s!"WASM instantiate: {e}")
  | .functionMissing e => throw (.executionError s!"function '{body.function}' not found: {e}")
  | .called outOfGas gasUsed result => do
    require (outOfGas = false ∧ gasUsed ≤ body.wasmGasLimit) (.executionError "WASM out of gas")
    match result with
    | .ok writes =>
      forEach writes fun w => setStorage body.contract w.1 w.2
      storeAccount tx.sender sender.bumped
      pure (gas.charge (gasUsed / 100)).1
    | .error e =>
      revertCallValue tx body sender
      throw (.executionError s!"WASM exec failed: {e}")

section

variable [Externals]

/-- `TxBody::WasmCall`: the gas meter after the call. -/
def executeWasmCall (c : Context) (tx : Transaction) (body : WasmCallBody) (gas : GasMeter) :
    Exec GasMeter := do
  let bytecode ← ofOption (.contractNotFound body.contract) (← getContract body.contract)
  require (isWasm bytecode = true) (.executionError
    ("state-changing EVM calls are unavailable until canonical pre-root execution " ++
      "is activated"))
  let sender := (← getAccount c tx.sender).getD (Account.new tx.sender 0)
  requireNonce sender tx.nonce
  let sender ← sendCallValue body sender
  let storage ← readStorage body.contract
  finishWasmCall tx body sender gas (Externals.runWasm (body.input c tx bytecode storage))

def computeContractAddress (deployer : Address) (nonce : Nat) : Address :=
  taggedHash "ARC-chain-contract-addr-v1"
    (List.replicate 6 0 ++ deployer.toBytes ++ leBytes 8 nonce)

/-- What the constructor call gives the engine: a fresh storage cache and a fixed limit. -/
def DeployBody.input (body : DeployBody) (c : Context) (tx : Transaction) : WasmInput where
  bytecode := body.bytecode
  function := "init"
  storage := ∅
  gasLimit := 5000000
  caller := tx.sender
  selfAddress := computeContractAddress tx.sender tx.nonce
  callValue := 0
  blockHeight := c.height

/-- The part of the constructor call after the engine has returned; a module without `init`
    is accepted. -/
def finishConstructor (contract : Address) : WasmOutcome → Exec Unit
  | .compileError e => throw (.executionError s!"WASM compile: {e}")
  | .instantiateError e => throw (.executionError s!"WASM instantiate: {e}")
  | .functionMissing _ => pure ()
  | .called outOfGas _ result => do
    require (outOfGas = false) (.executionError "constructor out of gas")
    match result with
    | .ok writes => forEach writes fun w => setStorage contract w.1 w.2
    | .error e =>
      removeContract contract
      removeAccount contract
      throw (.executionError s!"constructor exec: {e}")

/-- `TxBody::DeployContract`: the gas meter after the deployment. -/
def executeDeployContract (c : Context) (tx : Transaction) (body : DeployBody) (gas : GasMeter) :
    Exec GasMeter := do
  let sender ← openSender tx
  let totalCost := wrappingAdd tx.fee body.stateRentDeposit
  requireBalance sender.balance totalCost
  require (isWasm body.bytecode = true) (.executionError
    "invalid WASM bytecode: missing \x00asm magic header")
  let gas ← chargeGas gas (body.bytecode.length * 16)
  let contract := computeContractAddress tx.sender tx.nonce
  deployContract contract body.bytecode
  storeAccount contract (Account.newContract contract (hashBytes body.bytecode))
  if body.constructorArgs = [] then pure ()
  else finishConstructor contract (Externals.runWasm (body.input c tx))
  storeAccount tx.sender (sender.spend totalCost)
  pure gas

end

end ArcChain
