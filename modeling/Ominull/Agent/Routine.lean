import Ominull.Agent.Pin
import Mathlib.Data.List.DropRight

/-! The routine release keys: keys the release key vouches for, accepted for agent updates only. -/

namespace Ominull.Agent

open Lib

def maxRoutineKeys : ℕ := 4

def routineListMax : ℕ := 584

def isLowerHex (b : UInt8) : Bool := isDigit b || (0x61 ≤ b && b ≤ 0x66)

def parseRoutineEntries : ℕ → Option Str → Str → Option (List TrustRoutineKey)
  | 0, _, _ => none
  | room + 1, before, s =>
    let id := s.take 16
    let hex := (s.drop 17).take 128
    if id.length ≠ 16 ∨ !id.all isLowerHex then none
    else if (s.drop 16).head? ≠ some 0x3a then none
    else if hex.length ≠ 128 ∨ !hex.all isLowerHex then none
    else if !(before.all fun b => decide (b < id)) then none
    else
      match hexToBytes hex 64 with
      | none => none
      | some xy =>
        match s.drop 145 with
        | [] => some [⟨id, xy⟩]
        | 0x2c :: rest =>
          if rest = [] then none else (parseRoutineEntries room (some id) rest).map (⟨id, xy⟩ :: ·)
        | _ => none

def parseRoutineList (s : Str) : Option (List TrustRoutineKey) :=
  if s = [] then some [] else parseRoutineEntries maxRoutineKeys none s

/-- `Trust_PositiveInt`: exactly a decimal integer of at least one. -/
def positiveInt (v : Str) : Option Int :=
  let s := (TJ.ws v).rdropWhile TJ.isWs
  if s = [] ∨ s.head? = some 0x30 ∨ !s.all isDigit then none
  else (TJ.readDigits 0 s).map fun (n : ℕ) => (n : Int)

def routineStatement (epoch : Int) (list : Str) : Str :=
  str "OMINULL-ROUTINE-KEYS-V1\nepoch=" ++ (decimalInt epoch ++ (str "\nkeys=" ++ (list ++ str "\n")))

def routineVerify (C : Crypto) (epoch : Int) (list sig : Str) : Bool :=
  let statement := routineStatement epoch list
  let der := base64Decode sig 160
  statement.length < routineListMax + 96 && sig ≠ [] && der ≠ [] && C.verifyRelease statement der

def routinePinText (epoch : Int) (list sig : Str) : Str :=
  str "ominull-routine 1\nepoch=" ++ (decimalInt epoch ++ (str "\nkeys=" ++ (list ++
    (str "\nsig=" ++ (sig ++ str "\n")))))

/-- A line up to its newline, and what follows it. -/
def splitLine (s : Str) : Option (Str × Str) :=
  match s.dropWhile (· != 0x0a) with
  | [] => none
  | _ :: rest => some (s.takeWhile (· != 0x0a), rest)

def parseRoutinePin (s : Str) : Option (Int × Str × Str) := do
  let s ← scanLiteral (str "ominull-routine 1\nepoch=") s
  let (epoch, s) ← splitLine s
  let epoch ← positiveInt epoch
  let s ← scanLiteral (str "keys=") s
  let (list, s) ← (splitLine s).filter fun l => l.1.length < routineListMax + 1
  let s ← scanLiteral (str "sig=") s
  let (sig, s) ← (splitLine s).filter fun l => l.1 ≠ [] && l.1.length < 160
  if s = [] then some (epoch, list, sig) else none

/-- What `Trust_LoadRoutine` makes of the two files. -/
def takeStoredRoutine (C : Crypto) (r : RoutineKeys) (epochFile pinFile : Option Str) : RoutineKeys :=
  let floor := match (readSmall (routineListMax + 400) epochFile).bind scanInt with
    | some (n, _) => max n r.floor
    | none => r.floor
  let r : RoutineKeys := { floor := floor, loaded := true, failed := r.failed }
  let stored : Option (Int × Str × Str × List TrustRoutineKey) := do
    let (epoch, list, sig) ← (readSmall (routineListMax + 400) pinFile).bind parseRoutinePin
    let keys ← parseRoutineList list
    some (epoch, list, sig, keys)
  match stored with
  | none => r
  | some (epoch, list, sig, keys) =>
    if epoch < floor then r
    else if !routineVerify C epoch list sig then r
    else { r with keys := keys, epoch := epoch, list := list, floor := max floor epoch }

def loadRoutine (C : Crypto) (t : TrustContext) : Prog File TrustContext := do
  let epochFile ← Prog.readFile .routineEpoch
  let pinFile ← Prog.readFile .routinePin
  pure { t with routine := takeStoredRoutine C t.routine epochFile pinFile }

/-- The hub's routine_keys object. -/
def readRoutineOffer (obj : Str) : Option (Int × Str × Str × List TrustRoutineKey) := do
  let epoch ← (TJ.found obj (str "epoch")).bind positiveInt
  let list ← TJ.memberPlain obj (str "keys") (routineListMax + 1)
  let sig ← (TJ.memberPlain obj (str "sig") 160).filter (· ≠ [])
  let keys ← parseRoutineList list
  some (epoch, list, sig, keys)

def raiseRoutineFloor (r : RoutineKeys) (epoch : Int) : Prog File (Option RoutineKeys) :=
  if r.floor < epoch ∨ r.epoch = 0 then do
    let ok ← Prog.writeFile .routineEpoch (decimalInt epoch ++ str "\n")
    pure (if ok then some { r with floor := epoch } else none)
  else pure (some r)

/-- The two writes that pin a routine key set that has been verified: the floor, then the set. -/
def pinRoutine (r : RoutineKeys) (epoch : Int) (list sig : Str) (keys : List TrustRoutineKey) :
    Prog File RoutineKeys := do
  let raised ← raiseRoutineFloor r epoch
  match raised with
  | none => pure r
  | some r =>
    let ok ← Prog.writeFile .routinePin (routinePinText epoch list sig)
    pure (if ok then { r with keys := keys, epoch := epoch, list := list } else r)

/-- `Trust_AcceptRoutineKeys` once the stored set is loaded. -/
def acceptRoutineKeys (C : Crypto) (t : TrustContext) (obj : Str) : Prog File TrustContext :=
  match readRoutineOffer obj with
  | none => pure t
  | some (epoch, list, sig, keys) =>
    let r := t.routine
    if 0 < r.epoch ∧ epoch = r.epoch ∧ list = r.list then pure t
    else if epoch < r.floor ∨ (epoch = r.floor ∧ r.epoch = epoch) then pure t
    else
      let digest := C.sha256 (decimalInt epoch ++ str "|" ++ list ++ str "|" ++ sig)
      if digest = r.failed then pure t
      else if !routineVerify C epoch list sig then
        pure { t with routine := { r with failed := digest } }
      else do
        let r ← pinRoutine r epoch list sig keys
        pure { t with routine := r }

end Ominull.Agent
