import ViciMinter.Model

/-!
# The ledger client

`services/ledger.rs`: the argument `mint_to` sends and how the two calls read
their replies. A call made through `Call::bounded_wait` can fail whatever the
ledger did, so a `Reply` is a failure or the ledger's answer. Errors of the
runtime and of the ledger reach the minter only through their debug text.
-/

namespace ViciMinter

/-- What an awaited call comes back with. -/
inductive Reply (α : Type) where
  | callFailed (debug : String)
  | decodeFailed (debug : String)
  | answered (a : α)
  deriving DecidableEq, Repr

/-- `TransferError`, with the variants the minter does not tell apart as their debug text. -/
inductive TransferError where
  | duplicate (duplicateOf : Nat)
  | other (debug : String)
  deriving DecidableEq, Repr

structure TransferArg where
  fromSubaccount : Option Subaccount
  toAccount : Account
  amount : Nat
  fee : Option Nat
  memo : Option (List UInt8)
  createdAtTime : Option Nat
  deriving DecidableEq, Repr

def getBalanceResult : Reply Nat → Except MinterError Nat
  | .callFailed e => .error (.ledgerError ("Balance query failed: " ++ e))
  | .decodeFailed e => .error (.ledgerError ("Balance query response decode failed: " ++ e))
  | .answered balance => .ok balance

/-- The memo text, truncated to 32 bytes. -/
def memoBytes (memoText : String) : List UInt8 := memoText.toUTF8.data.toList.take 32

/-- The transfer `mint_to` sends at time `now`. -/
def mintToArg (toAccount : Account) (amount : Nat) (memoText : String) (now : Nat) :
    TransferArg where
  fromSubaccount := none
  toAccount := toAccount
  amount := amount
  fee := none
  memo := some (memoBytes memoText)
  createdAtTime := some now

/-- How `mint_to` reads the reply: a `Duplicate` counts as success. -/
def mintToResult : Reply (Except TransferError Nat) → Except MinterError Nat
  | .callFailed e => .error (.ledgerError ("Transfer call failed: " ++ e))
  | .decodeFailed e => .error (.ledgerError ("Transfer response decode failed: " ++ e))
  | .answered (.ok blockIndex) => .ok blockIndex
  | .answered (.error (.duplicate duplicateOf)) => .ok duplicateOf
  | .answered (.error (.other e)) => .error (.ledgerError ("Transfer error: " ++ e))

end ViciMinter
