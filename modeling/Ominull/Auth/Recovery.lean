import Ominull.Auth.Lockout

/-!
Recovery tokens: a call reads the token, marks it used, reads the operator's authenticators and clears them one
by one, each in a store access of its own. A token serves one call while no two read it before it is marked, and
its own operator while the callers ask for that operator: the store checks neither.
-/

namespace Ominull.Auth.Recovery

open Go Lib Response List Option

structure RecoveryTokenRecord where
  tokenHash : Str
  tenantID : Str
  operatorID : Str
  createdAt : Time
  expiresAt : Time
  used : Bool := false
  usedAt : Option Time := none
  deriving DecidableEq

abbrev Tokens := Table RecoveryTokenRecord.tokenHash

/-- `SaveRecoveryToken`: a known hash keeps all but whether and when the token was used. -/
def Tokens.save (T : Tokens) (tok : RecoveryTokenRecord) : Tokens :=
  (T.insert tok).getD (T.update tok.tokenHash (fun r => { r with used := tok.used, usedAt := tok.usedAt })
    (fun _ => rfl))

/-- The `UPDATE` of `ConsumeRecoveryToken`. -/
def Tokens.markUsed (T : Tokens) (tokenHash : Str) (usedAt : Time) : Tokens :=
  T.update tokenHash (fun r => { r with used := true, usedAt := some usedAt }) (fun _ => rfl)

def tokenHash (C : Crypto) (token : Str) : Str := hexEncode (C.sha256 token)

/-- What `GenerateRecoveryToken` saves for the bytes it draws. -/
def newToken (C : Crypto) (bytes tenantID operatorID : Str) (now : Time) : RecoveryTokenRecord where
  tokenHash := tokenHash C (hexEncode bytes)
  tenantID := tenantID
  operatorID := operatorID
  createdAt := now
  expiresAt := now + 900 * second

structure Request where
  tenantID : Str
  operatorID : Str
  recoveryToken : Str
  deriving DecidableEq

def Request.hash (C : Crypto) (req : Request) : Str := tokenHash C req.recoveryToken

inductive Phase where
  | called (now : Time)
  /-- The token is unused and has not expired; it is not yet marked. -/
  | checked (now : Time)
  /-- The token is marked; the authenticators are not yet read. -/
  | consumed (now : Time)
  /-- The authenticators that are still to be cleared. -/
  | clearing (now : Time) (rest : List Str)
  | done
  | refused
  deriving DecidableEq

structure Reset where
  call : ℕ
  tokenHash : Str
  authenticatorID : Str
  deriving DecidableEq

/-- The store, the calls, and the record of what they cleared, the latest first. -/
structure State where
  authenticators : Authenticators
  tokens : Tokens
  calls : Threads Request Phase
  resets : List Reset

def State.init : State := ⟨Table.empty, Table.empty, Table.empty, []⟩

inductive Event where
  | generate (bytes tenantID operatorID : Str) (now : Time)
  | request (i : ℕ) (req : Request) (now : Time)
  /-- The next store access of a call; the store may fail it. -/
  | access (i : ℕ) (succeeds : Bool)
  /-- Other users of the authenticators: they enrol, revoke and lock. -/
  | save (auth : AuthenticatorRecord)
  | usage (id : Str) (lastUsed : Time) (failureCount : Int) (lockedUntil : Option Time)

/-- The read and the checks of `ConsumeRecoveryToken`. -/
def checkToken (T : Tokens) (tokenHash : Str) (now : Time) : Phase :=
  match T.find tokenHash with
  | none => .refused
  | some tok => if tok.used then .refused else if tok.expiresAt < now then .refused else .checked now

def lockedOut (T : Authenticators) (tenantID operatorID : Str) : List Str :=
  ((T.list tenantID operatorID).filter fun r => 0 < r.failureCount ∨ r.lockedUntil ≠ none).map (·.id)

def access (C : Crypto) (s : State) (i : ℕ) (req : Request) (succeeds : Bool) : Phase → Option State
  | .called now =>
    some { s with calls := s.calls.move i (if succeeds then checkToken s.tokens (req.hash C) now else .refused) }
  | .checked now =>
    if succeeds then
      some { s with tokens := s.tokens.markUsed (req.hash C) now, calls := s.calls.move i (.consumed now) }
    else some { s with calls := s.calls.move i .refused }
  | .consumed now =>
    let next := if succeeds then .clearing now (lockedOut s.authenticators req.tenantID req.operatorID) else .done
    some { s with calls := s.calls.move i next }
  | .clearing now (id :: rest) =>
    let calls := s.calls.move i (.clearing now rest)
    if succeeds then
      some { s with
        authenticators := s.authenticators.updateUsage id now 0 none
        calls := calls
        resets := ⟨i, req.hash C, id⟩ :: s.resets }
    else some { s with calls := calls }
  | .clearing _ [] => some { s with calls := s.calls.move i .done }
  | .done | .refused => none

def firstPhase (req : Request) (now : Time) : Phase :=
  if req.tenantID = [] ∨ req.operatorID = [] ∨ req.recoveryToken = [] then .refused else .called now

def step (C : Crypto) (s : State) : Event → Option State
  | .generate bytes tenantID operatorID now =>
    some { s with tokens := s.tokens.save (newToken C bytes tenantID operatorID now) }
  | .request i req now => (s.calls.start i req (firstPhase req now)).map fun calls => { s with calls := calls }
  | .access i succeeds => (s.calls.find i).bind fun x => access C s i x.req succeeds x.phase
  | .save auth => some { s with authenticators := s.authenticators.save auth }
  | .usage id lastUsed failureCount lockedUntil =>
    some { s with authenticators := s.authenticators.updateUsage id lastUsed failureCount lockedUntil }

/-- What a token has cleared: all of it in one call, no authenticator twice, and only authenticators of the
operator and tenant the token was issued to. -/
structure State.RecoversOnce (s : State) : Prop where
  once : ∀ r ∈ s.resets, ∀ r' ∈ s.resets, r.tokenHash = r'.tokenHash → r.call = r'.call
  distinct : (s.resets.map fun r => (r.tokenHash, r.authenticatorID)).Nodup
  own : ∀ r ∈ s.resets, ∃ tok ∈ s.tokens.find r.tokenHash, ∃ row ∈ s.authenticators.find r.authenticatorID,
    row.tenantID = tok.tenantID ∧ row.operatorID = tok.operatorID

def Phase.reading : Phase → Bool
  | .called _ => true
  | _ => false

/-- The call has read a token and has yet to mark it. -/
def Phase.marking : Phase → Bool
  | .checked _ => true
  | _ => false

/-- A token that is generated is new. A call asks for the operator and tenant of its token, and reads it while
no other call has read it and has yet to mark it. -/
def Orderly (C : Crypto) (s : State) : Event → Prop
  | .generate bytes _ _ _ => s.tokens.find (tokenHash C (hexEncode bytes)) = none
  | .access i _ => ∀ x ∈ s.calls.find i, x.phase.reading = true →
      (∀ tok ∈ s.tokens.find (x.req.hash C), tok.tenantID = x.req.tenantID ∧ tok.operatorID = x.req.operatorID) ∧
      ∀ y ∈ s.calls.rows, y.id ≠ i → y.phase.marking = true → y.req.hash C ≠ x.req.hash C
  | .request .. | .save _ | .usage .. => True

instance decidableOrderly (C : Crypto) (s : State) (e : Event) : Decidable (Orderly C s e) := by
  cases e <;> dsimp only [Orderly] <;> infer_instance

/-! ## What a token is held for -/

variable {id : Str}

section Tables

variable {T : Tokens} {tok : RecoveryTokenRecord}

theorem Tokens.find_save_new (h : T.find tok.tokenHash = none) (k : Str) :
    (T.save tok).find k = if tok.tokenHash = k then some tok else T.find k := by
  obtain ⟨T', hT'⟩ := Table.insert_of_find_none h
  rw [Tokens.save, hT', getD_some, Table.find_insert hT']

theorem owner_save {T : Authenticators} {tenantID operatorID : Str} (h : Totp.Owner T id tenantID operatorID)
    (auth : AuthenticatorRecord) : Totp.Owner (T.save auth) id tenantID operatorID := by
  rw [Authenticators.save]
  cases hins : T.insert auth with
  | some T' => exact h.insert hins
  | none =>
    -- a known id keeps its owner
    obtain ⟨row, hfind, howner⟩ := h
    rw [getD_none]
    by_cases hid : auth.id = id
    · subst hid
      exact ⟨_, (Table.find_update_same ..).trans (congrArg _ hfind), howner⟩
    · exact ⟨row, (Table.find_update_other _ _ _ hid).trans hfind, howner⟩

theorem nodup_lockedOut (T : Authenticators) (tenantID operatorID : Str) : (lockedOut T tenantID operatorID).Nodup :=
  T.nodup.sublist ((filter_sublist.trans filter_sublist).map _)

theorem owner_of_mem_lockedOut {T : Authenticators} {tenantID operatorID : Str}
    (h : id ∈ lockedOut T tenantID operatorID) : Totp.Owner T id tenantID operatorID := by
  obtain ⟨row, hrow, rfl⟩ := mem_map.mp h
  obtain ⟨hfind, htenant, hoperator, -⟩ := Authenticators.mem_list (List.mem_filter.mp hrow).1
  exact ⟨row, hfind, htenant, hoperator⟩

end Tables

/-- The call has read its token, and no other may. -/
def Phase.holds : Phase → Bool
  | .called _ | .refused => false
  | .checked _ | .consumed _ | .clearing .. | .done => true

def Phase.spent : Phase → Bool
  | .called _ | .refused | .checked _ => false
  | .consumed _ | .clearing .. | .done => true

def Phase.clears : Phase → Bool
  | .clearing .. | .done => true
  | _ => false

/-- The token that a call holds is there, is its operator's, and is marked once the call is past that. -/
def Held (C : Crypto) (T : Tokens) (x : Thread Request Phase) : Prop :=
  x.phase.holds = true → ∃ tok, T.find (x.req.hash C) = some tok ∧ tok.tenantID = x.req.tenantID ∧
    tok.operatorID = x.req.operatorID ∧ (x.phase.spent = true → tok.used = true)

/-- What a call has still to clear is its operator's, and its token has not cleared it before. -/
def Listed (C : Crypto) (T : Authenticators) (resets : List Reset) (x : Thread Request Phase) : Prop :=
  ∀ now rest, x.phase = .clearing now rest → rest.Nodup ∧ ∀ id ∈ rest,
    Totp.Owner T id x.req.tenantID x.req.operatorID ∧ ∀ r ∈ resets, r.tokenHash = x.req.hash C → r.authenticatorID ≠ id

/-- Two calls do not hold one token. -/
def Apart (C : Crypto) (x y : Thread Request Phase) : Prop :=
  x.phase.holds = true → y.phase.holds = true → x.req.hash C ≠ y.req.hash C

theorem Apart.symm {C : Crypto} (x y : Thread Request Phase) (h : Apart C x y) : Apart C y x :=
  fun hy hx => Ne.symm (h hx hy)

/-- A call has made this reset, of an authenticator of the operator it asked for. -/
def Reset.Made (C : Crypto) (T : Authenticators) (calls : Threads Request Phase) (r : Reset) : Prop :=
  ∃ x ∈ calls.rows, x.id = r.call ∧ x.phase.clears = true ∧ x.req.hash C = r.tokenHash ∧
    Totp.Owner T r.authenticatorID x.req.tenantID x.req.operatorID

structure State.Inv (C : Crypto) (s : State) : Prop where
  held : ∀ x ∈ s.calls.rows, Held C s.tokens x
  listed : ∀ x ∈ s.calls.rows, Listed C s.authenticators s.resets x
  apart : ∀ x ∈ s.calls.rows, ∀ y ∈ s.calls.rows, x.id ≠ y.id → Apart C x y
  made : ∀ r ∈ s.resets, r.Made C s.authenticators s.calls
  distinct : (s.resets.map fun r => (r.tokenHash, r.authenticatorID)).Nodup

section Inv

variable {C : Crypto} {s t : State} {e : Event}

theorem inv_init (C : Crypto) : State.init.Inv C :=
  ⟨forall_mem_nil _, forall_mem_nil _, forall_mem_nil _, forall_mem_nil _, nodup_nil⟩

theorem Phase.holds_iff (p : Phase) : p.holds = true ↔ p.marking = true ∨ p.spent = true := by
  cases p <;> simp [Phase.holds, Phase.marking, Phase.spent]

variable {p : Phase}

theorem Phase.holds_of_clears (h : p.clears = true) : p.holds = true := by
  cases p <;> first | rfl | cases h

theorem State.Inv.recoversOnce (h : s.Inv C) : s.RecoversOnce where
  once r hr r' hr' heq := by
    obtain ⟨x, hx, hid, hclears, hhash, -⟩ := h.made r hr
    obtain ⟨y, hy, hid', hclears', hhash', -⟩ := h.made r' hr'
    by_contra hne
    exact h.apart x hx y hy (by rwa [hid, hid']) (Phase.holds_of_clears hclears) (Phase.holds_of_clears hclears')
      (by rw [hhash, hhash', heq])
  distinct := h.distinct
  own r hr := by
    obtain ⟨x, hx, -, hclears, hhash, row, hrow, htenant, hoperator⟩ := h.made r hr
    obtain ⟨tok, htok, htenant', hoperator', -⟩ := h.held x hx (Phase.holds_of_clears hclears)
    exact ⟨tok, hhash ▸ htok, row, hrow, htenant.trans htenant'.symm, hoperator.trans hoperator'.symm⟩

theorem State.Inv.owners (h : s.Inv C) {T : Authenticators} (hT : ∀ id tenantID operatorID,
    Totp.Owner s.authenticators id tenantID operatorID → Totp.Owner T id tenantID operatorID) :
    State.Inv C { s with authenticators := T } where
  held := h.held
  listed x hx now rest hp :=
    ⟨(h.listed x hx now rest hp).1, fun id hid =>
      ⟨hT _ _ _ ((h.listed x hx now rest hp).2 id hid).1, ((h.listed x hx now rest hp).2 id hid).2⟩⟩
  apart := h.apart
  made r hr := by
    obtain ⟨x, hx, hid, hclears, hhash, howner⟩ := h.made r hr
    exact ⟨x, hx, hid, hclears, hhash, hT _ _ _ howner⟩
  distinct := h.distinct

variable {i : ℕ} {x : Thread Request Phase}

theorem State.Inv.move (h : s.Inv C) (hi : s.calls.find i = some x) {T : Tokens}
    (hothers : ∀ y ∈ s.calls.rows, y.id ≠ i → Held C T y) (hheld : Held C T ⟨i, x.req, p⟩)
    (hlisted : Listed C s.authenticators s.resets ⟨i, x.req, p⟩)
    (hapart : ∀ y ∈ s.calls.rows, y.id ≠ i → Apart C ⟨i, x.req, p⟩ y)
    (hclears : x.phase.clears = true → p.clears = true) :
    State.Inv C { s with tokens := T, calls := s.calls.move i p } where
  held := Threads.forall_move hi hothers hheld
  listed := Threads.forall_move hi (fun y hy _ => h.listed y hy) hlisted
  apart := Threads.forall₂_move Apart.symm hi h.apart hapart
  made r hr := by
    obtain ⟨y, hy, hid, hyclears, hhash, howner⟩ := h.made r hr
    by_cases hyi : y.id = i
    · obtain rfl : y = x := Option.some.inj ((Table.find_iff.mpr ⟨hy, hyi⟩).symm.trans hi)
      exact ⟨⟨i, y.req, p⟩, (Threads.mem_move hi).mpr (.inr rfl), hyi.symm.trans hid, hclears hyclears, hhash, howner⟩
    · exact ⟨y, (Threads.mem_move hi).mpr (.inl ⟨hy, hyi⟩), hid, hyclears, hhash, howner⟩
  distinct := h.distinct

theorem State.Inv.apart_of_holds (h : s.Inv C) (hi : s.calls.find i = some x)
    (hp : p.holds = true → x.phase.holds = true) : ∀ y ∈ s.calls.rows, y.id ≠ i → Apart C ⟨i, x.req, p⟩ y := by
  intro y hy hne hholds
  have hid : x.id = i := Table.key_of_find hi
  exact h.apart x (Table.mem_of_find hi) y hy (hid ▸ Ne.symm hne) (hp hholds)

theorem listed_of_ne {T : Authenticators} {resets : List Reset} (h : ∀ now rest, x.phase ≠ .clearing now rest) :
    Listed C T resets x :=
  fun now rest hp => absurd hp (h now rest)

theorem State.Inv.stop (h : s.Inv C) (hi : s.calls.find i = some x)
    (hp : p = .refused ∧ x.phase.clears = false ∨ p = .done ∧ x.phase.spent = true) :
    State.Inv C { s with calls := s.calls.move i p } := by
  have hx := h.held x (Table.mem_of_find hi)
  have hothers : ∀ y ∈ s.calls.rows, y.id ≠ i → Held C s.tokens y := fun y hy _ => h.held y hy
  rcases hp with ⟨rfl, hclears⟩ | ⟨rfl, hspent⟩
  · refine h.move hi hothers (fun hholds => absurd hholds Bool.false_ne_true) (listed_of_ne fun _ _ => nofun)
      (h.apart_of_holds hi fun hholds => absurd hholds Bool.false_ne_true) fun hc => ?_
    rw [hclears] at hc
    cases hc
  · have hholds : x.phase.holds = true := (Phase.holds_iff _).mpr (.inr hspent)
    refine h.move hi hothers (fun _ => ?_) (listed_of_ne fun _ _ => nofun) (h.apart_of_holds hi fun _ => hholds)
      fun _ => rfl
    obtain ⟨tok, htok, htenant, hoperator, hused⟩ := hx hholds
    exact ⟨tok, htok, htenant, hoperator, fun _ => hused hspent⟩

theorem checkToken_cases (T : Tokens) (k : Str) (now : Time) :
    checkToken T k now = .refused ∨
      ∃ tok, T.find k = some tok ∧ tok.used = false ∧ checkToken T k now = .checked now := by
  rw [checkToken]
  cases T.find k with
  | none => exact .inl rfl
  | some tok =>
    dsimp only
    split_ifs with hused hexpired
    · exact .inl rfl
    · exact .inl rfl
    · exact .inr ⟨tok, rfl, by simpa using hused, rfl⟩

theorem Held.markUsed {T : Tokens} (h : Held C T x) (k : Str) (usedAt : Time) : Held C (T.markUsed k usedAt) x := by
  intro hholds
  obtain ⟨tok, htok, htenant, hoperator, hused⟩ := h hholds
  rw [Tokens.markUsed, Table.find_update, htok]
  split_ifs
  · exact ⟨_, rfl, htenant, hoperator, fun _ => rfl⟩
  · exact ⟨tok, rfl, htenant, hoperator, hused⟩

variable {req : Request} {now : Time}

theorem State.Inv.check (h : s.Inv C) {succeeds : Bool} (hi : s.calls.find i = some ⟨i, req, .called now⟩)
    (hok : Orderly C s (.access i succeeds)) :
    State.Inv C { s with calls := s.calls.move i (checkToken s.tokens (req.hash C) now) } := by
  obtain ⟨hown, halone⟩ := hok _ hi rfl
  rcases checkToken_cases s.tokens (req.hash C) now with hrefused | ⟨tok, htok, hunused, hchecked⟩
  · rw [hrefused]
    exact h.stop hi (.inl ⟨rfl, rfl⟩)
  rw [hchecked]
  refine h.move hi (fun y hy _ => h.held y hy) (fun _ => ?_) (listed_of_ne fun _ _ => nofun) ?_
    fun hclears => absurd hclears Bool.false_ne_true
  · exact ⟨tok, htok, (hown tok htok).1, (hown tok htok).2, fun hspent => absurd hspent Bool.false_ne_true⟩
  · intro y hy hne _ hholds heq
    -- another holder has the token marked, or is about to mark it
    cases hmark : y.phase.marking with
    | true => exact halone y hy hne hmark heq.symm
    | false =>
      obtain ⟨tok', htok', -, -, hused⟩ := h.held y hy hholds
      obtain rfl : tok = tok' := Option.some.inj (htok.symm.trans ((congrArg _ heq).trans htok'))
      rcases (Phase.holds_iff _).mp hholds with hmarking | hspent
      · exact absurd (hmark.symm.trans hmarking) Bool.false_ne_true
      · exact absurd (hunused.symm.trans (hused hspent)) Bool.false_ne_true

theorem State.Inv.consume (h : s.Inv C) (hi : s.calls.find i = some ⟨i, req, .checked now⟩) :
    State.Inv C { s with tokens := s.tokens.markUsed (req.hash C) now, calls := s.calls.move i (.consumed now) } := by
  refine h.move hi (fun y hy _ => (h.held y hy).markUsed _ _) (fun _ => ?_) (listed_of_ne fun _ _ => nofun)
    (h.apart_of_holds hi fun _ => rfl) fun hclears => absurd hclears Bool.false_ne_true
  obtain ⟨tok, htok, htenant, hoperator, -⟩ := h.held _ (Table.mem_of_find hi) rfl
  exact ⟨_, (Table.find_update_same ..).trans (congrArg _ htok), htenant, hoperator, fun _ => rfl⟩

theorem State.Inv.list (h : s.Inv C) (hi : s.calls.find i = some ⟨i, req, .consumed now⟩) : State.Inv C { s with
      calls := s.calls.move i (.clearing now (lockedOut s.authenticators req.tenantID req.operatorID)) } := by
  have hheld := h.held _ (Table.mem_of_find hi) rfl
  refine h.move hi (fun y hy _ => h.held y hy) (fun _ => hheld) ?_ (h.apart_of_holds hi fun _ => rfl) fun _ => rfl
  rintro _ _ ⟨⟩
  refine ⟨nodup_lockedOut _ _ _, fun id hid => ⟨owner_of_mem_lockedOut hid, fun r hr hhash => ?_⟩⟩
  -- whoever has cleared with this token holds it
  obtain ⟨y, hy, -, hclears, hyhash, -⟩ := h.made r hr
  by_cases hyi : y.id = i
  · obtain rfl := Option.some.inj ((Table.find_iff.mpr ⟨hy, hyi⟩).symm.trans hi)
    cases hclears
  · have hne := h.apart y hy ⟨i, req, .consumed now⟩ (Table.mem_of_find hi) hyi (Phase.holds_of_clears hclears) rfl
    exact absurd (hyhash.trans hhash) hne

theorem State.Inv.skip (h : s.Inv C) {rest : List Str}
    (hi : s.calls.find i = some ⟨i, req, .clearing now (id :: rest)⟩) :
    State.Inv C { s with calls := s.calls.move i (.clearing now rest) } := by
  have hheld := h.held _ (Table.mem_of_find hi) rfl
  refine h.move hi (fun y hy _ => h.held y hy) (fun _ => hheld) ?_ (h.apart_of_holds hi fun _ => rfl) fun _ => rfl
  rintro _ _ ⟨⟩
  obtain ⟨hnodup, hall⟩ := h.listed _ (Table.mem_of_find hi) now _ rfl
  exact ⟨(nodup_cons.mp hnodup).2, fun id' hid' => hall id' (mem_cons_of_mem _ hid')⟩

theorem State.Inv.clear (h : s.Inv C) {rest : List Str}
    (hi : s.calls.find i = some ⟨i, req, .clearing now (id :: rest)⟩) : State.Inv C { s with
      calls := s.calls.move i (.clearing now rest)
      resets := ⟨i, req.hash C, id⟩ :: s.resets } := by
  have hskip := h.skip hi
  obtain ⟨hnodup, hall⟩ := h.listed _ (Table.mem_of_find hi) now _ rfl
  obtain ⟨hnotmem, -⟩ := nodup_cons.mp hnodup
  obtain ⟨howner, hnew⟩ := hall id mem_cons_self
  refine ⟨hskip.held, fun x hx now' rest' hp => ?_, hskip.apart, ?_, ?_⟩
  · refine ⟨(hskip.listed x hx now' rest' hp).1, fun id' hid' =>
      ⟨((hskip.listed x hx now' rest' hp).2 id' hid').1, fun r hr hhash => ?_⟩⟩
    rcases mem_cons.mp hr with rfl | hr
    · rcases (Threads.mem_move hi).mp hx with ⟨hx, hxi⟩ | rfl
      · exact absurd hhash (h.apart _ (Table.mem_of_find hi) x hx (Ne.symm hxi) rfl (by rw [hp]; rfl))
      · cases hp
        rintro rfl
        exact hnotmem hid'
    · exact ((hskip.listed x hx now' rest' hp).2 id' hid').2 r hr hhash
  · refine forall_mem_cons.mpr ⟨?_, hskip.made⟩
    exact ⟨_, (Threads.mem_move hi).mpr (.inr rfl), rfl, rfl, rfl, howner⟩
  · refine nodup_cons.mpr ⟨fun hmem => ?_, h.distinct⟩
    obtain ⟨r, hr, hpair⟩ := mem_map.mp hmem
    rw [Prod.mk.injEq] at hpair
    exact hnew r hr hpair.1 hpair.2

theorem State.Inv.access (h : s.Inv C) {succeeds : Bool} (hi : s.calls.find i = some ⟨i, req, p⟩)
    (hok : Orderly C s (.access i succeeds)) (ht : Recovery.access C s i req succeeds p = some t) : t.Inv C := by
  cases p with
  | called now =>
    cases ht
    cases succeeds with
    | true => exact h.check hi hok
    | false => exact h.stop hi (.inl ⟨rfl, rfl⟩)
  | checked now =>
    cases succeeds with
    | true =>
      cases ht
      exact h.consume hi
    | false =>
      cases ht
      exact h.stop hi (.inl ⟨rfl, rfl⟩)
  | consumed now =>
    cases ht
    cases succeeds with
    | true => exact h.list hi
    | false => exact h.stop hi (.inr ⟨rfl, rfl⟩)
  | clearing now rest =>
    cases rest with
    | nil =>
      cases ht
      exact h.stop hi (.inr ⟨rfl, rfl⟩)
    | cons id rest =>
      cases succeeds with
      | true =>
        cases ht
        exact (h.clear hi).owners fun _ _ _ howner => howner.updateUsage now 0 none
      | false =>
        cases ht
        exact h.skip hi
  | done | refused => cases ht

theorem State.Inv.step (h : s.Inv C) (hok : Orderly C s e) (ht : step C s e = some t) : t.Inv C := by
  cases e with
  | generate bytes tenantID operatorID now =>
    cases ht
    refine { h with held := fun x hx hholds => ?_ }
    obtain ⟨tok, htok, hrest⟩ := h.held x hx hholds
    have hnew : s.tokens.find (newToken C bytes tenantID operatorID now).tokenHash = none := hok
    refine ⟨tok, ?_, hrest⟩
    rw [Tokens.find_save_new hnew, if_neg, htok]
    intro heq
    rw [← heq] at htok
    exact some_ne_none tok (htok.symm.trans hnew)
  | request i req now =>
    obtain ⟨calls, hstart, rfl⟩ := map_eq_some_iff.mp ht
    have hfirst : (firstPhase req now).holds ≠ true ∧ ∀ n rest, firstPhase req now ≠ .clearing n rest := by
      rw [firstPhase]
      split_ifs
      · exact ⟨Bool.false_ne_true, fun _ _ => nofun⟩
      · exact ⟨Bool.false_ne_true, fun _ _ => nofun⟩
    refine ⟨Threads.forall_start hstart h.held fun hholds => absurd hholds hfirst.1,
      Threads.forall_start hstart h.listed (listed_of_ne hfirst.2),
      Threads.forall₂_start Apart.symm hstart h.apart fun _ _ hholds => absurd hholds hfirst.1, fun r hr => ?_,
      h.distinct⟩
    obtain ⟨x, hx, hmade⟩ := h.made r hr
    exact ⟨x, Table.mem_insert_of_mem hstart hx, hmade⟩
  | access i succeeds =>
    obtain ⟨⟨j, req, p⟩, hi, ht⟩ := bind_eq_some_iff.mp ht
    obtain rfl : j = i := Table.key_of_find hi
    exact h.access hi hok ht
  | save auth =>
    cases ht
    exact h.owners fun _ _ _ howner => owner_save howner auth
  | usage id lastUsed failureCount lockedUntil =>
    cases ht
    exact h.owners fun _ _ _ howner => howner.updateUsage lastUsed failureCount lockedUntil

end Inv

/-- **A recovery token clears once, and for its own operator**, in every interleaving in which the calls read
their tokens one at a time and ask for the operator the token was issued to. -/
theorem recovery_token_once (C : Crypto) {s : State} (h : Run (Guarded (Orderly C) (StepOf (step C))) .init s) :
    s.RecoversOnce :=
  (h.preserves (fun _ _ _ hs hstep => hs.step hstep.1 hstep.2) (inv_init C)).recoversOnce

/-! A token for `ann`, whose authenticator is locked, and one for `bob`. -/

def lockedRow (id operatorID : Str) : AuthenticatorRecord where
  id := id
  operatorID := operatorID
  tenantID := str "acme"
  type := .totp
  secretOrKey := []
  failureCount := 5
  lockedUntil := some (1000 * second)

def annsToken : Request := ⟨str "acme", str "ann", hexEncode [1]⟩

def issued : List Event :=
  [.save (lockedRow (str "a1") (str "ann")), .save (lockedRow (str "b1") (str "bob")),
    .generate [1] (str "acme") (str "ann") 0]

def wholeCall (i : ℕ) (req : Request) : List Event :=
  [.request i req 0, .access i true, .access i true, .access i true, .access i true, .access i true]

theorem recovery_token_once_wholeCall :
    ∃ s, runList (step .sample) .init (issued ++ wholeCall 1 annsToken) = some s ∧
      s.resets = [⟨1, annsToken.hash .sample, str "a1"⟩] ∧ s.RecoversOnce := by
  refine exists_runList (fun s => s.resets = [⟨1, annsToken.hash .sample, str "a1"⟩]) (by decide +kernel) ?_
  exact fun s hs hresets => ⟨hresets, recovery_token_once .sample (run_of_runList hs (by decide +kernel))⟩

/-- Two calls read the token before either marks it. The second clears the lock that came after the first. -/
def racingCalls : List Event :=
  [.request 1 annsToken 0, .request 2 annsToken 0, .access 1 true, .access 2 true, .access 1 true, .access 1 true,
    .access 1 true, .usage (str "a1") 0 5 (some (1000 * second)), .access 2 true, .access 2 true, .access 2 true]

def bobsCall : Request := { annsToken with operatorID := str "bob" }

theorem token_resets_twice_and_for_another :
    (∃ s, runList (step .sample) .init (issued ++ racingCalls) = some s ∧ ¬s.RecoversOnce) ∧
    ∃ s, runList (step .sample) .init (issued ++ wholeCall 1 bobsCall) = some s ∧ ¬s.RecoversOnce := by
  constructor
  · refine exists_runList (fun s => s.resets = [⟨2, annsToken.hash .sample, str "a1"⟩,
      ⟨1, annsToken.hash .sample, str "a1"⟩]) (by decide +kernel) fun s hs hresets honce => ?_
    have hcall := honce.once ⟨2, annsToken.hash .sample, str "a1"⟩ (by simp [hresets])
      ⟨1, annsToken.hash .sample, str "a1"⟩ (by simp [hresets]) rfl
    exact absurd hcall (by decide)
  · refine exists_runList (fun s => s.resets = [⟨1, annsToken.hash .sample, str "b1"⟩] ∧
      (s.tokens.find (annsToken.hash .sample)).map (·.operatorID) = some (str "ann") ∧
      (s.authenticators.find (str "b1")).map (·.operatorID) = some (str "bob")) (by decide +kernel) ?_
    intro s hs ⟨hresets, htok, hrow⟩ honce
    obtain ⟨tok, htok', row, hrow', -, hoperator⟩ :=
      honce.own ⟨1, annsToken.hash .sample, str "b1"⟩ (by simp [hresets])
    rw [mem_def.mp htok'] at htok
    rw [mem_def.mp hrow'] at hrow
    have hsame : str "bob" = str "ann" :=
      (Option.some.inj hrow).symm.trans (hoperator.trans (Option.some.inj htok))
    exact absurd hsame (by decide)

end Ominull.Auth.Recovery
