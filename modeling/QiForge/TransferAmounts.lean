import QiForge.DigitStrings

/-!
# Amounts of a chain transaction

The model writes amounts in display units, and the runtime turns them into
base units with the decimals of the token: those the owner's list gives, or
IXO's own.  Sends and stakes of the owner count against the listed balance of
their token; what a group proposal moves is the group's.
-/

namespace QiForge

structure HubActionRefused where
  code : String
  message : String
deriving DecidableEq, Repr

namespace TransferAmounts

def refused {α : Type} (message : String) : Except HubActionRefused α :=
  .error ⟨"refused", message⟩

/-! ## One amount -/

/-- `DECIMAL_AMOUNT`: the digits before the point and those after it. -/
def decimalAmount (text : List Char) : Option (List Char × List Char) :=
  let whole := text.takeWhile Char.isDigit
  if whole = [] ∨ (whole.head? = some '0' ∧ whole ≠ ['0']) then none
  else
    match text.dropWhile Char.isDigit with
    | [] => some (whole, [])
    | c :: fraction =>
        if c = '.' ∧ fraction ≠ [] ∧ fraction.all Char.isDigit then
          some (whole, fraction)
        else none

def toBaseUnits (amount : String) (decimals : ℕ) : Except HubActionRefused ℕ :=
  match decimalAmount amount.toList with
  | none =>
      refused "The amount must be a plain decimal number such as 1.5."
  | some (whole, fraction) =>
      if 80 < amount.toList.length then
        refused "The amount must be a plain decimal number such as 1.5."
      else
        let fraction := DigitString.trimEnd fraction
        if decimals < fraction.length then
          refused (if decimals = 0 then
            "This token is counted in whole base units: " ++
              "use an amount without decimals."
          else
            s!"This token has {decimals} decimals: " ++
              s!"use at most {decimals} digits after the point.")
        else
          let base := DigitString.value whole * 10 ^ decimals +
            DigitString.value (DigitString.padEnd decimals fraction)
          if base = 0 then refused "The amount must be above zero."
          else .ok base

def fromBaseUnits (base decimals : ℕ) : String :=
  if decimals = 0 then String.ofList (Nat.toDigits 10 base)
  else
    let scale := 10 ^ decimals
    let whole := Nat.toDigits 10 (base / scale)
    let fraction := DigitString.trimEnd (DigitString.padStart decimals
      (Nat.toDigits 10 (base % scale)))
    String.ofList (if fraction = [] then whole else whole ++ '.' :: fraction)

/-! ## Tokens and messages -/

structure OptionsToken where
  denom : String
  symbol : String
  decimals : ℕ
  verified : Bool
  balanceBaseUnits : ℕ
deriving DecidableEq, Repr

def describeAmount (amountBaseUnits : ℕ) (token : OptionsToken) : String :=
  if token.verified = false then
    s!"{amountBaseUnits} base units of {token.denom} (unverified token)"
  else
    let display :=
      s!"{fromBaseUnits amountBaseUnits token.decimals} {token.symbol}"
    if token.denom = "uixo" then display
    else s!"{display} ({token.denom})"

/-- IXO's denom and decimals. -/
def ixoDenom : String := "uixo"

def ixoDecimals : ℕ := 6

inductive StakeStep where
  | delegate
  | undelegate
  | redelegate
deriving DecidableEq, Repr

structure BankInput where
  toAddress : String
  amount : String
  denom : Option String
deriving DecidableEq, Repr

structure BankSend where
  toAddress : String
  amountBaseUnits : String
  denom : String
deriving DecidableEq, Repr

/-- A stake step; `rest` are its fields other than the amount. -/
structure StakeInput (S : Type) where
  step : StakeStep
  rest : S
  amount : String
deriving DecidableEq, Repr

structure Stake (S : Type) where
  step : StakeStep
  rest : S
  amountBaseUnits : String
deriving DecidableEq, Repr

inductive GroupActionInput (S A : Type) where
  | bank (input : BankInput)
  | stake (input : StakeInput S)
  | other (action : A)
deriving DecidableEq, Repr

inductive GroupAction (S A : Type) where
  | bank (send : BankSend)
  | stake (stake : Stake S)
  | other (action : A)
deriving DecidableEq, Repr

/-- A new proposal has its own fields beside its actions. -/
inductive MessageInput (S A P M : Type) where
  | bank (input : BankInput)
  | stake (input : StakeInput S)
  | proposal (rest : P) (actions : List (GroupActionInput S A))
  | other (message : M)
deriving DecidableEq, Repr

inductive HostMessage (S A P M : Type) where
  | bank (send : BankSend)
  | stake (stake : Stake S)
  | proposal (rest : P) (actions : List (GroupAction S A))
  | other (message : M)
deriving DecidableEq, Repr

variable {S A P M : Type}

def BankInput.denomOf (input : BankInput) : String := input.denom.getD ixoDenom

/-- `toBaseUnits`, its refusal naming the amount. -/
def converted (path amount : String) (decimals : ℕ) :
    Except HubActionRefused ℕ :=
  match toBaseUnits amount decimals with
  | .ok base => .ok base
  | .error e => refused s!"{path}.amount: {e.message}"

def chainTxNeedsTokenList (messages : List (MessageInput S A P M)) : Bool :=
  messages.any fun message =>
    match message with
    | .bank _ => true
    | .stake input => decide (input.step = .delegate)
    | .proposal _ actions =>
        actions.any fun action =>
          match action with
          | .bank input => decide (input.denomOf ≠ ixoDenom)
          | .stake _ | .other _ => false
    | .other _ => false

def listed (tokens : Option (List OptionsToken)) (denom : String) :
    Option OptionsToken :=
  (tokens.getD []).find? fun item => decide (item.denom = denom)

/-- The decimals of a token a group sends. -/
def groupDecimals (tokens : Option (List OptionsToken)) (denom : String) :
    Option ℕ :=
  if denom = ixoDenom then some ixoDecimals
  else (listed tokens denom).map OptionsToken.decimals

def stakeInBaseUnits (path : String) (input : StakeInput S) :
    Except HubActionRefused (ℕ × Stake S) :=
  (converted path input.amount ixoDecimals).map fun amount =>
    (amount, ⟨input.step, input.rest, toString amount⟩)

def groupActionInBaseUnits (tokens : Option (List OptionsToken))
    (path : String) : GroupActionInput S A →
    Except HubActionRefused (GroupAction S A)
  | .stake input =>
      (stakeInBaseUnits path input).map fun stake => .stake stake.2
  | .other action => .ok (.other action)
  | .bank input =>
      match groupDecimals tokens input.denomOf with
      | none =>
          refused (s!"{path}.denom: {input.denomOf} is not in the owner's " ++
            "token list, so its decimals are unknown here; a group " ++
            "proposal can send IXO, or a token exactly as " ++
            "hub_action_options lists it.")
      | some decimals =>
          (converted path input.amount decimals).map fun amount =>
            .bank ⟨input.toAddress, toString amount, input.denomOf⟩

def groupActionsFrom (tokens : Option (List OptionsToken)) (path : String)
    (index : ℕ) : List (GroupActionInput S A) →
    Except HubActionRefused (List (GroupAction S A))
  | [] => .ok []
  | action :: rest =>
      match groupActionInBaseUnits tokens s!"{path}.actions[{index}]"
        action with
      | .error e => .error e
      | .ok done =>
          (groupActionsFrom tokens path (index + 1) rest).map fun more =>
            done :: more

/-- The steps of one listed token together, within its listed balance. -/
def spend (spent : String → ℕ) (path : String) (token : OptionsToken)
    (amount : ℕ) (what : String) : Except HubActionRefused (String → ℕ) :=
  let total := spent token.denom + amount
  if token.balanceBaseUnits < total then
    refused (s!"{path}.amount: the owner holds " ++
      s!"{describeAmount token.balanceBaseUnits token}, less than " ++
      (if total = amount then what
        else "what the steps of this transaction take of it together") ++ ".")
  else .ok (Function.update spent token.denom total)

/-- What is spent after a message, and the message. -/
def messageInBaseUnits (tokens : Option (List OptionsToken))
    (spent : String → ℕ) (path : String) :
    MessageInput S A P M →
    Except HubActionRefused ((String → ℕ) × HostMessage S A P M)
  | .proposal rest actions =>
      (groupActionsFrom tokens path 0 actions).map fun actions =>
        (spent, .proposal rest actions)
  | .stake input =>
      match stakeInBaseUnits path input with
      | .error e => .error e
      | .ok (amount, stake) =>
          match listed tokens ixoDenom with
          | none => .ok (spent, .stake stake)
          | some ixo =>
              -- Unstaking and moving stake take nothing from the wallet.
              if input.step = .delegate then
                (spend spent path ixo amount "this stake").map fun spent =>
                  (spent, .stake stake)
              else .ok (spent, .stake stake)
  | .other message => .ok (spent, .other message)
  | .bank input =>
      if tokens.getD [] = [] then
        refused ("Coin sends are not available for this owner right now " ++
          "(no token list from Auth Hub).")
      else
        match listed tokens input.denomOf with
        | none =>
            refused (s!"{path}.denom: {input.denomOf} is not in the " ++
              "owner's token list; use a denom exactly as " ++
              "hub_action_options lists it (" ++
              ", ".intercalate (((tokens.getD []).map
                OptionsToken.denom).take 10) ++ ").")
        | some token =>
            match converted path input.amount token.decimals with
            | .error e => .error e
            | .ok amount =>
                (spend spent path token amount "this send").map fun spent =>
                  (spent,
                    .bank ⟨input.toAddress, toString amount, token.denom⟩)

def messagesFrom (tokens : Option (List OptionsToken))
    (spent : String → ℕ) (index : ℕ) :
    List (MessageInput S A P M) →
    Except HubActionRefused (List (HostMessage S A P M))
  | [] => .ok []
  | message :: rest =>
      match messageInBaseUnits tokens spent s!"messages[{index}]" message with
      | .error e => .error e
      | .ok (spent, done) =>
          (messagesFrom tokens spent (index + 1) rest).map fun more =>
            done :: more

def chainTxAmountsInBaseUnits (messages : List (MessageInput S A P M))
    (tokens : Option (List OptionsToken)) :
    Except HubActionRefused (List (HostMessage S A P M)) :=
  messagesFrom tokens (fun _ => 0) 0 messages

end TransferAmounts

end QiForge
