import Mathlib.Data.List.MinMax
import Mathlib.Data.Prod.Lex
import Ominull.Lib.BitRange
import Ominull.Response.Types

/-!
The trust fabric: which destinations an isolated endpoint may still reach. An address is the bit of its family and
its 32 or 128 bits, and a masked prefix is what its addresses begin with.
-/

namespace Ominull.Fabric

open Lib Response List

def width (b : Bits) : ℕ := if b.head? = some true then 129 else 33

structure Addr where
  bits : Bits
  size : bits.length = width bits

/-- The scopes, least specific first. -/
inductive Scope where
  | provider
  | client
  | site
  | group
  | endpoint
  deriving DecidableEq

def Scope.level : Scope → ℕ
  | .provider => 0
  | .client => 1
  | .site => 2
  | .group => 3
  | .endpoint => 4

inductive Action where
  | allow
  | deny
  deriving DecidableEq

inductive Direction where
  | both
  | inward
  | outward
  deriving DecidableEq

inductive Proto where
  | any
  | tcp
  | udp
  | other (name : Str)
  deriving DecidableEq

/-- A rule that `Normalize` has passed. -/
structure Rule where
  id : Str
  scope : Scope
  scopeID : Str
  range : Bits
  action : Action
  direction : Direction
  port : ℕ
  proto : Proto
  locked : Bool
  expiresAt : Option Time
  nonempty : range ≠ []
  fits : range.length ≤ width range

structure Endpoint where
  id : Str
  tenantID : Str
  locationID : Str
  role : Str
  hubAddrs : List Bits

/-- A destination; port 0, any protocol or both directions ask about the address as a whole. -/
structure Target where
  addr : Bits
  port : ℕ
  proto : Proto
  direction : Direction

inductive Basis where
  | floor
  | locked
  | mostSpecific
  | default
  deriving DecidableEq

structure Decision where
  action : Action
  basis : Basis
  ruleID : Str := []
  scope : Option Scope := none

namespace Rule

def active (r : Rule) (now : Time) : Bool := r.expiresAt.all fun t => now < t

def appliesTo (r : Rule) (ep : Endpoint) : Bool :=
  match r.scope with
  | .provider => true
  | .client => r.scopeID = ep.tenantID
  | .site => r.scopeID = ep.locationID
  | .group => r.scopeID = ep.role
  | .endpoint => r.scopeID = ep.id

/-- The check of the port, the protocol and the direction: what a rule names has to be asked for. -/
def names {α : Type} [DecidableEq α] (whole rule target : α) : Bool :=
  if target ≠ whole ∧ rule ≠ whole ∧ rule ≠ target then false
  else if target = whole ∧ rule ≠ whole then false
  else true

def matchesTarget (r : Rule) (t : Target) : Bool :=
  r.range.isPrefixOf t.addr && names 0 r.port t.port && names .any r.proto t.proto &&
    names .both r.direction t.direction

end Rule

/-- 127.0.0.0/8 and ::1. -/
def isLoopback (a : Bits) : Bool :=
  [false, false, true, true, true, true, true, true, true].isPrefixOf a || a = true :: (List.replicate 127 false ++ [true])

def isFloor (ep : Endpoint) (t : Target) : Bool :=
  isLoopback t.addr || t.addr ∈ ep.hubAddrs || (t.proto = .udp && (t.port = 67 || t.port = 68))

def stronger (a b : Rule) : Bool :=
  if a.scope.level ≠ b.scope.level then b.scope.level < a.scope.level
  else if a.range.length ≠ b.range.length then b.range.length < a.range.length
  else if decide (a.port ≠ 0) ≠ decide (b.port ≠ 0) then a.port ≠ 0
  else if decide (a.proto ≠ .any) ≠ decide (b.proto ≠ .any) then a.proto ≠ .any
  else if decide (a.direction ≠ .both) ≠ decide (b.direction ≠ .both) then a.direction ≠ .both
  else a.action = .deny && b.action = .allow

def strongerLocked (a b : Rule) : Bool :=
  if a.scope.level ≠ b.scope.level then a.scope.level < b.scope.level
  else a.action = .deny && b.action = .allow

def better (stronger : Rule → Rule → Bool) (best : Option Rule) (r : Rule) : Option Rule :=
  match best with
  | none => some r
  | some b => if stronger r b then some r else some b

/-- The rules that the loop of `Decide` looks at. -/
def inForce (ep : Endpoint) (rules : List Rule) (t : Target) (now : Time) : List Rule :=
  rules.filter fun r => r.active now && r.appliesTo ep && r.matchesTarget t

/-- `Decide` behind the floor. -/
def ruled (ep : Endpoint) (rules : List Rule) (t : Target) (now : Time) : Decision :=
  let best := ((inForce ep rules t now).filter fun r => !r.locked).foldl (better stronger) none
  let bestLocked := ((inForce ep rules t now).filter fun r => r.locked).foldl (better strongerLocked) none
  match bestLocked, best with
  | some r, _ => ⟨r.action, .locked, r.id, some r.scope⟩
  | none, some r => ⟨r.action, .mostSpecific, r.id, some r.scope⟩
  | none, none => ⟨.deny, .default, [], none⟩

def decideTarget (ep : Endpoint) (rules : List Rule) (t : Target) (now : Time) : Decision :=
  if isFloor ep t then ⟨.allow, .floor, [], none⟩ else ruled ep rules t now

/-! ## Precedence -/

/-- What an unlocked rule is judged by: scope, prefix, port, protocol, direction, and deny on a tie. -/
def Rule.rank (r : Rule) : ℕ ×ₗ ℕ ×ₗ Bool ×ₗ Bool ×ₗ Bool ×ₗ Bool :=
  toLex (r.scope.level, toLex (r.range.length, toLex (decide (r.port ≠ 0), toLex (decide (r.proto ≠ .any),
    toLex (decide (r.direction ≠ .both), decide (r.action = .deny))))))

/-- What a locked rule is judged by: the least specific scope, and deny on a tie. -/
def Rule.lockedRank (r : Rule) : ℕ ×ₗ Bool := toLex (4 - r.scope.level, decide (r.action = .deny))

theorem strongerLocked_iff (a b : Rule) : strongerLocked a b = true ↔ b.lockedRank < a.lockedRank := by
  unfold strongerLocked Rule.lockedRank
  cases a.scope <;> cases b.scope <;> cases a.action <;> cases b.action <;> decide

theorem lex_step {α β : Type} [LinearOrder α] [LT β] {x y : α} {u v : β} {rest : Bool} (h : rest = true ↔ v < u) :
    (if x ≠ y then decide (y < x) else rest) = true ↔ toLex (y, v) < toLex (x, u) := by
  rw [Prod.Lex.toLex_lt_toLex]
  by_cases hxy : x = y
  · simp [hxy, h]
  · simp [hxy, Ne.symm hxy]

theorem lex_flag {β : Type} [LT β] {x y : Bool} {u v : β} {rest : Bool} (h : rest = true ↔ v < u) :
    (if x ≠ y then x else rest) = true ↔ toLex (y, v) < toLex (x, u) := by
  rw [← lex_step h]
  cases x <;> cases y <;> rfl

theorem stronger_iff (a b : Rule) : stronger a b = true ↔ b.rank < a.rank := by
  refine lex_step (lex_step (lex_flag (lex_flag (lex_flag ?_))))
  cases a.action <;> cases b.action <;> decide

/-- The loop keeps the first of the highest ranked rules. -/
theorem foldl_better {β : Type} [LinearOrder β] {rank : Rule → β} {stronger : Rule → Rule → Bool}
    (h : ∀ a b, stronger a b = true ↔ rank b < rank a) (l : List Rule) :
    l.foldl (better stronger) none = l.argmax rank := by
  have hstep : better stronger = List.argAux fun a b => rank b < rank a := by
    funext best r
    cases best with
    | none => rfl
    | some b => simp only [better, List.argAux, h]
  rw [hstep]
  rfl

inductive Precedence (l : List Rule) : Action → Prop where
  | locked (r : Rule) (hr : r ∈ l) (hlocked : r.locked = true)
      (hmax : ∀ r' ∈ l, r'.locked = true → r'.lockedRank ≤ r.lockedRank) : Precedence l r.action
  | specific (r : Rule) (hunlocked : ∀ r' ∈ l, r'.locked = false) (hr : r ∈ l)
      (hmax : ∀ r' ∈ l, r'.rank ≤ r.rank) : Precedence l r.action
  | default (hnone : l = []) : Precedence l .deny

theorem ruled_precedence (ep : Endpoint) (rules : List Rule) (t : Target) (now : Time) :
    Precedence (inForce ep rules t now) (ruled ep rules t now).action := by
  unfold ruled
  rw [foldl_better strongerLocked_iff, foldl_better stronger_iff]
  generalize inForce ep rules t now = l
  cases hlocked : (l.filter fun r => r.locked).argmax Rule.lockedRank with
  | some r =>
    obtain ⟨hr, hl⟩ := List.mem_filter.mp (argmax_mem hlocked)
    exact .locked r hr hl fun r' hr' hl' => le_of_mem_argmax (List.mem_filter.mpr ⟨hr', hl'⟩) hlocked
  | none =>
    have hunlocked : ∀ r ∈ l, r.locked = false := by
      simpa using filter_eq_nil_iff.mp (argmax_eq_none.mp hlocked)
    rw [filter_eq_self.mpr fun r hr => by simp [hunlocked r hr]]
    cases hbest : l.argmax Rule.rank with
    | some r =>
      exact .specific r hunlocked (argmax_mem hbest) fun r' hr' => le_of_mem_argmax hr' hbest
    | none => exact .default (argmax_eq_none.mp hbest)

theorem action_of_rank {a b : Rule} (h : a.rank = b.rank) : a.action = b.action := by
  have hdeny : decide (a.action = .deny) = decide (b.action = .deny) := by
    simpa [Rule.rank] using congrArg (fun k => (ofLex (ofLex (ofLex (ofLex (ofLex k).2).2).2).2).2) h
  cases ha : a.action <;> cases hb : b.action <;> simp_all

theorem action_of_lockedRank {a b : Rule} (h : a.lockedRank = b.lockedRank) : a.action = b.action := by
  have hdeny : decide (a.action = .deny) = decide (b.action = .deny) := congrArg (fun k => (ofLex k).2) h
  cases ha : a.action <;> cases hb : b.action <;> simp_all

theorem Precedence.unique {l : List Rule} {a a' : Action} (h : Precedence l a) (h' : Precedence l a') : a = a' := by
  cases h with
  | locked r hr hlocked hmax =>
    cases h' with
    | locked r' hr' hlocked' hmax' => exact action_of_lockedRank (le_antisymm (hmax' r hr hlocked) (hmax r' hr' hlocked'))
    | specific r' hunlocked => simp [hunlocked r hr] at hlocked
    | default hnone => simp [hnone] at hr
  | specific r hunlocked hr hmax =>
    cases h' with
    | locked r' hr' hlocked' => simp [hunlocked r' hr'] at hlocked'
    | specific r' _ hr' hmax' => exact action_of_rank (le_antisymm (hmax' r hr) (hmax r' hr'))
    | default hnone => simp [hnone] at hr
  | default hnone =>
    subst hnone
    cases h' with
    | locked r' hr' | specific r' _ hr' => cases hr'
    | default => rfl

theorem Precedence.perm {l l' : List Rule} {a : Action} (h : Precedence l a) (hperm : l.Perm l') : Precedence l' a := by
  have hmem := fun r => hperm.mem_iff (a := r)
  cases h with
  | locked r hr hlocked hmax =>
    exact .locked r ((hmem r).mp hr) hlocked fun r' hr' => hmax r' ((hmem r').mpr hr')
  | specific r hunlocked hr hmax =>
    exact .specific r (fun r' hr' => hunlocked r' ((hmem r').mpr hr')) ((hmem r).mp hr)
      fun r' hr' => hmax r' ((hmem r').mpr hr')
  | default hnone =>
    subst hnone
    exact .default hperm.nil_eq.symm

/-- An unlocked rule more leaves what a locked one decides. -/
theorem ruled_unlocked {ep : Endpoint} {l₁ l₂ : List Rule} {t : Target} {now : Time} {r : Rule}
    (hr : r.locked = false) (h : (ruled ep (l₁ ++ l₂) t now).basis = .locked) :
    ruled ep (l₁ ++ r :: l₂) t now = ruled ep (l₁ ++ l₂) t now := by
  have hsame : (inForce ep (l₁ ++ r :: l₂) t now).filter (fun r => r.locked) =
      (inForce ep (l₁ ++ l₂) t now).filter fun r => r.locked := by
    unfold inForce
    simp only [filter_append, filter_cons]
    split_ifs <;> simp [hr]
  unfold ruled at h ⊢
  rw [hsame]
  cases hlocked : ((inForce ep (l₁ ++ l₂) t now).filter fun r => r.locked).foldl (better strongerLocked) none with
  | some r => rfl
  | none =>
    dsimp only at h
    split at h <;> simp_all

theorem decideTarget_precedence (ep : Endpoint) (rules : List Rule) (t : Target) (now : Time) :
    (if isFloor ep t then (decideTarget ep rules t now).action = .allow
      else Precedence (inForce ep rules t now) (decideTarget ep rules t now).action) ∧
    (∀ rules', rules.Perm rules' →
      (decideTarget ep rules' t now).action = (decideTarget ep rules t now).action) ∧
    ∀ l₁ r l₂, rules = l₁ ++ l₂ → r.locked = false →
      (decideTarget ep rules t now).basis = .floor ∨ (decideTarget ep rules t now).basis = .locked →
        decideTarget ep (l₁ ++ r :: l₂) t now = decideTarget ep rules t now := by
  unfold decideTarget
  by_cases hfloor : isFloor ep t = true
  · simp [hfloor]
  · simp only [if_neg hfloor]
    refine ⟨ruled_precedence ep rules t now, ?_, ?_⟩
    · intro rules' hperm
      have hsame := (ruled_precedence ep rules t now).perm (hperm.filter _)
      exact (ruled_precedence ep rules' t now).unique hsame
    · rintro l₁ r l₂ rfl hr (hbasis | hbasis)
      · unfold ruled at hbasis
        dsimp only at hbasis
        split at hbasis <;> cases hbasis
      · exact ruled_unlocked hr hbasis

end Ominull.Fabric
