import Ominull.Agent.Host
import Ominull.Agent.PinText

/-! The pin on disk and in memory: what holds of the two files and of a running agent, and that every
event keeps it. -/

namespace Ominull.Agent

open Lib

def diskFloor (d : Disk File) : Int := epochFloorOf (d .trustEpoch)

def TrustBundle.Released (C : Crypto) (b : TrustBundle) : Prop :=
  ∃ der, C.verifyRelease b.statement der = true

/-- What a context holds about the pin. -/
structure PinView where
  haveKey : PerKey Bool
  keys : PerKey Str
  tenant : Str
  epoch : Int
  epochFloor : Int

def TrustContext.pinView (t : TrustContext) : PinView :=
  ⟨t.haveKey, t.keys, t.tenant, t.epoch, t.epochFloor⟩

structure PinFile (C : Crypto) (d : Disk File) (b : TrustBundle) (keys : PerKey Str) : Prop where
  content : d .trustPin = some b.pinText
  pinnable : b.Pinnable keys
  released : b.Released C

def ValidPin (C : Crypto) (d : Disk File) (b : TrustBundle) (keys : PerKey Str) : Prop :=
  PinFile C d b keys ∧ diskFloor d ≤ b.epoch

structure PinDisk (C : Crypto) (d : Disk File) : Prop where
  pin : d .trustPin = none ∨ ∃ b keys, PinFile C d b keys ∧ b.epoch ≤ diskFloor d
  floor_pos : 1 ≤ diskFloor d
  floor_lt : diskFloor d < 2 ^ 63 - 7

/-- No key is held, the floor is the one on disk, and there is no bundle on disk that a start would
take. -/
structure Unpinned (C : Crypto) (d : Disk File) (v : PinView) : Prop where
  haveKey : v.haveKey = ⟨false, false, false⟩
  floor : v.epochFloor = diskFloor d
  stale : ∀ b keys, ¬ValidPin C d b keys

/-- The three keys of one released bundle of this tenant are held. If a bundle on disk is one a start
would take, it is this one. -/
structure Pinned (C : Crypto) (d : Disk File) (v : PinView) (b : TrustBundle) : Prop where
  haveKey : v.haveKey = ⟨true, true, true⟩
  pinnable : b.Pinnable v.keys
  released : b.Released C
  tenant : v.tenant = b.tenant
  epoch : v.epoch = b.epoch
  floor : b.epoch ≤ diskFloor d
  same : ∀ b' keys, ValidPin C d b' keys → b' = b

def PinAgent (C : Crypto) (d : Disk File) (v : PinView) : Prop :=
  Unpinned C d v ∨ ∃ b, Pinned C d v b

section Disk

variable {C : Crypto} {d d' : Disk File} {b b' : TrustBundle} {keys keys' : PerKey Str} {v : PinView}

theorem PinFile.unique (h : PinFile C d b keys) (h' : PinFile C d b' keys') : b = b' ∧ keys = keys' := by
  have hread := readPin h.pinnable
  rw [← h.content, h'.content, readPin h'.pinnable] at hread
  cases hread
  exact ⟨rfl, rfl⟩

theorem pinFile_congr (h : ∀ f ∈ pinFiles, d' f = d f) : PinFile C d' = PinFile C d := by
  funext b keys
  have hpin : d' .trustPin = d .trustPin := h _ (by decide)
  refine propext ⟨fun ⟨hc, hp, hr⟩ => ⟨hpin ▸ hc, hp, hr⟩, fun ⟨hc, hp, hr⟩ => ⟨hpin ▸ hc, hp, hr⟩⟩

theorem diskFloor_congr (h : ∀ f ∈ pinFiles, d' f = d f) : diskFloor d' = diskFloor d := by
  rw [diskFloor, diskFloor, h .trustEpoch (by decide)]

theorem validPin_congr (h : ∀ f ∈ pinFiles, d' f = d f) : ValidPin C d' = ValidPin C d := by
  funext b keys
  rw [ValidPin, ValidPin, pinFile_congr h, diskFloor_congr h]

theorem PinDisk.congr (h : ∀ f ∈ pinFiles, d' f = d f) (hd : PinDisk C d) : PinDisk C d' := by
  have hpin : d' .trustPin = d .trustPin := h _ (by decide)
  refine ⟨?_, ?_, ?_⟩
  · rw [hpin, pinFile_congr h, diskFloor_congr h]
    exact hd.pin
  · rw [diskFloor_congr h]
    exact hd.floor_pos
  · rw [diskFloor_congr h]
    exact hd.floor_lt

theorem PinAgent.congr (h : ∀ f ∈ pinFiles, d' f = d f) (ha : PinAgent C d v) : PinAgent C d' v := by
  rcases ha with ha | ⟨b, ha⟩
  · refine .inl ⟨ha.haveKey, ?_, ?_⟩
    · rw [diskFloor_congr h]
      exact ha.floor
    · rw [validPin_congr h]
      exact ha.stale
  · refine .inr ⟨b, { ha with floor := ?_, same := ?_ }⟩
    · rw [diskFloor_congr h]
      exact ha.floor
    · rw [validPin_congr h]
      exact ha.same

/-! ## Where an agent may move -/

structure PinStop (C : Crypto) (d d' : Disk File) : Prop where
  disk : PinDisk C d'
  floor : diskFloor d ≤ diskFloor d'

/-- Where an agent may have moved to: it holds what it held, or no key, or it held no key and now
holds a bundle that is not below the floor it found and that is on disk. -/
structure PinMove (C : Crypto) (d : Disk File) (v : PinView) (d' : Disk File) (v' : PinView) : Prop
    extends PinStop C d d' where
  agent : PinAgent C d' v'
  move : v' = v ∨ v'.haveKey = ⟨false, false, false⟩ ∨
    v.haveKey = ⟨false, false, false⟩ ∧ diskFloor d ≤ v'.epoch ∧ ∃ b, ValidPin C d' b v'.keys

theorem PinMove.refl (hd : PinDisk C d) (ha : PinAgent C d v) : PinMove C d v d v :=
  ⟨⟨hd, Int.le_refl _⟩, ha, .inl rfl⟩

/-! ## A start -/

theorem takePin_move (t : TrustContext) (ht : t.haveKey = ⟨false, false, false⟩) (hd : PinDisk C d) :
    PinMove C d t.pinView d (takePin t (d .trustEpoch) (d .trustPin)).pinView := by
  have hstop : PinStop C d d := ⟨hd, Int.le_refl _⟩
  rcases hd.pin with hnone | ⟨b, keys, hfile, hle⟩
  · refine ⟨hstop, .inl ?_, .inr (.inl ?_)⟩
    · rw [hnone]
      exact ⟨ht, rfl, fun b keys hv => by cases hnone.symm.trans hv.1.content⟩
    · rw [hnone]
      exact ht
  · have hread : (readSmall 600 (d .trustPin)).bind parsePin = some (b, keys) := by
      rw [hfile.content]
      exact readPin hfile.pinnable
    unfold takePin
    simp only [hread]
    by_cases hlow : b.epoch < epochFloorOf (d .trustEpoch)
    · rw [if_pos (.inr hlow)]
      refine ⟨hstop, .inl ⟨ht, rfl, fun b' keys' hv => ?_⟩, .inr (.inl ht)⟩
      obtain ⟨rfl, -⟩ := hfile.unique hv.1
      have hge := hv.2
      unfold diskFloor at hge
      omega
    · rw [if_neg (by simp [hfile.pinnable.tenant, hlow])]
      refine ⟨hstop, .inr ⟨b, rfl, hfile.pinnable, hfile.released, rfl, rfl, hle, ?_⟩,
        .inr (.inr ⟨ht, Int.not_lt.mp hlow, b, hfile, Int.not_lt.mp hlow⟩)⟩
      exact fun b' keys' hv => (hv.1.unique hfile).1

theorem takePin_epoch (t : TrustContext) (hfile : PinFile C d b keys) :
    (takePin t (d .trustEpoch) (d .trustPin)).epoch = b.epoch := by
  have hread : (readSmall 600 (d .trustPin)).bind parsePin = some (b, keys) := by
    rw [hfile.content]
    exact readPin hfile.pinnable
  unfold takePin
  simp only [hread]
  split <;> rfl

theorem takePin_epochFloor (t : TrustContext) (pin : Option Str) :
    (takePin t (d .trustEpoch) pin).epochFloor = diskFloor d := by
  unfold takePin
  dsimp only
  split
  · rfl
  · split <;> rfl

/-- A context as a start has it before it looks at the stored manifest. -/
structure Loaded (d : Disk File) (endpointID : Str) (t : TrustContext) : Prop where
  identity : t.endpointID = endpointID.take 63
  pin : t.pinView =
    (takePin { endpointID := endpointID.take 63 } (d .trustEpoch) (d .trustPin)).pinView
  manifest : t.manifest = none
  mfloor : t.mfloor = floorsOf (d .manifestFloor)
  mfloorDirty : t.mfloorDirty = false

theorem init_wp {ok : File → Option Outcome → Prop} {I : Disk File → Prop} {endpointID : Str}
    {Q : TrustContext → Disk File → Prop} (h : ∀ t state, Loaded d endpointID t →
      Q { takeStoredManifest C t (d .manifestState) with state := state } d) :
    (init C endpointID).wp ok I Q d := by
  have htake : ∀ t : TrustContext, (takePin t (d .trustEpoch) (d .trustPin)).endpointID = t.endpointID ∧
      (takePin t (d .trustEpoch) (d .trustPin)).manifest = t.manifest ∧
      (takePin t (d .trustEpoch) (d .trustPin)).mfloorDirty = t.mfloorDirty := by
    intro t
    unfold takePin
    dsimp only
    split
    · exact ⟨rfl, rfl, rfl⟩
    · split <;> exact ⟨rfl, rfl, rfl⟩
  obtain ⟨hid, hmanifest, hdirty⟩ := htake { endpointID := endpointID.take 63 }
  unfold init loadPin loadHostAuthority loadManifestState
  simp only [Prog.wp_bind, Prog.wp_readFile, Prog.wp_pure]
  refine Prog.wp_ite (fun _ => ?_) fun _ => ?_
  · exact h _ _ ⟨hid, rfl, hmanifest, rfl, hdirty⟩
  · exact h _ _ ⟨hid, rfl, hmanifest, rfl, hdirty⟩

variable {t : TrustContext}

theorem ManifestChange.pinView {u : TrustContext} (h : ManifestChange t u) : u.pinView = t.pinView := by
  obtain ⟨m, l, dirty, rfl⟩ := h
  rfl

theorem Loaded.pinView {endpointID : Str} (ht : Loaded d endpointID t) (state : TrustState) :
    (TrustContext.pinView { takeStoredManifest C t (d .manifestState) with state := state }) =
      (takePin { endpointID := endpointID.take 63 } (d .trustEpoch) (d .trustPin)).pinView := by
  rw [← ht.pin]
  exact (takeStoredManifest_change (d .manifestState)).pinView

/-! ## Pinning -/

def atomicPins (f : File) (o : Option Outcome) : Prop := f ∈ pinFiles → o ≠ some .unsynced

/-- Raising the floor on disk. -/
theorem PinDisk.raise {n : Int} (hd : PinDisk C d) (hn : diskFloor d ≤ n) (hlt : n < 2 ^ 63 - 7) :
    PinDisk C (Function.update d .trustEpoch (some (decimalInt n ++ str "\n"))) ∧
      diskFloor (Function.update d .trustEpoch (some (decimalInt n ++ str "\n"))) = n ∧
      PinFile C (Function.update d .trustEpoch (some (decimalInt n ++ str "\n"))) = PinFile C d := by
  have hpos := hd.floor_pos
  have hfloor : diskFloor (Function.update d .trustEpoch (some (decimalInt n ++ str "\n"))) = n := by
    exact epochFloorOf_decimalInt (by omega) (by omega)
  have hpin : Function.update d .trustEpoch (some (decimalInt n ++ str "\n")) .trustPin = d .trustPin :=
    Function.update_of_ne (by decide) _ _
  have hfile : PinFile C (Function.update d .trustEpoch (some (decimalInt n ++ str "\n"))) =
      PinFile C d := by
    funext b keys
    exact propext ⟨fun ⟨hc, hp, hr⟩ => ⟨hpin ▸ hc, hp, hr⟩, fun ⟨hc, hp, hr⟩ => ⟨hpin.trans hc, hp, hr⟩⟩
  refine ⟨⟨?_, ?_, ?_⟩, hfloor, hfile⟩
  · rw [hpin, hfile, hfloor]
    refine hd.pin.imp_right fun ⟨b, keys, hb, hle⟩ => ⟨b, keys, hb, by omega⟩
  · omega
  · rw [hfloor]
    exact hlt

theorem PinDisk.write (hd : PinDisk C d) (hb : b.Pinnable keys) (hr : b.Released C)
    (hle : b.epoch ≤ diskFloor d) :
    PinDisk C (Function.update d .trustPin (some b.pinText)) ∧
      diskFloor (Function.update d .trustPin (some b.pinText)) = diskFloor d ∧
      PinFile C (Function.update d .trustPin (some b.pinText)) b keys := by
  have hfloor : diskFloor (Function.update d .trustPin (some b.pinText)) = diskFloor d := by
    unfold diskFloor
    rw [Function.update_of_ne (by decide)]
  have hfile : PinFile C (Function.update d .trustPin (some b.pinText)) b keys :=
    ⟨Function.update_self .., hb, hr⟩
  refine ⟨⟨.inr ⟨b, keys, hfile, by omega⟩, ?_, ?_⟩, hfloor, hfile⟩
  · exact hd.floor_pos
  · exact hd.floor_lt

theorem pinBundle_wp (hd : PinDisk C d) (hu : Unpinned C d t.pinView) (hb : b.Pinnable keys) (hr : b.Released C)
    (hge : t.epochFloor ≤ b.epoch) : (pinBundle C t b keys).wp atomicPins (PinStop C d)
      (fun u d' => PinMove C d t.pinView d' u.pinView) d := by
  have hfloor : t.epochFloor = diskFloor d := hu.floor
  have hbound := hb.bounded
  have hhere : PinStop C d d := ⟨hd, Int.le_refl _⟩
  obtain ⟨hd1, hfloor1, hfile1⟩ := hd.raise (n := b.epoch) (by omega) (by omega)
  have hstop1 := PinStop.mk (d := d) hd1 (by omega)
  refine ⟨fun _ => hhere, fun o ho => ?_⟩
  cases o with
  | unsynced => exact absurd rfl (ho (by decide))
  | failed => exact ⟨hhere, .inl hu, .inl rfl⟩
  | done =>
    refine ⟨fun _ => hstop1, fun o ho => ?_⟩
    cases o with
    | unsynced => exact absurd rfl (ho (by decide))
    | failed =>
      -- the floor is raised, the bundle is not there
      refine ⟨hstop1, .inl ⟨hu.haveKey, hfloor1.symm, fun b' keys' hv => ?_⟩, .inr (.inl hu.haveKey)⟩
      obtain ⟨hfile, hle⟩ := hv
      change PinFile C (Function.update d _ _) b' keys' at hfile
      change diskFloor (Function.update d _ _) ≤ b'.epoch at hle
      rw [hfile1] at hfile
      exact hu.stale b' keys' ⟨hfile, by omega⟩
    | done =>
      obtain ⟨hd2, hfloor2, hfile2⟩ := hd1.write hb hr (by omega)
      have hstop2 := PinStop.mk (d := d) hd2 (by omega)
      have hle2 : b.epoch ≤ _ := Int.le_of_eq (hfloor2.trans hfloor1).symm
      change PinMove C d t.pinView _ (takeStoredManifest C _ _).pinView
      rw [(takeStoredManifest_change _).pinView]
      refine ⟨hstop2, .inr ⟨b, rfl, hb, hr, rfl, rfl, hle2, fun b' keys' hv => ?_⟩,
        .inr (.inr ⟨hu.haveKey, ?_, b, hfile2, ?_⟩)⟩
      · exact (hv.1.unique hfile2).1
      · change _ ≤ b.epoch
        omega
      · exact Int.le_of_eq (hfloor2.trans hfloor1)

theorem readOfferKeys_keys {obj tenant : Str} {epoch : Int} {hex keys : PerKey Str}
    (h : readOfferKeys obj = some (hex, keys)) : (TrustBundle.mk tenant epoch hex).keys = some keys := by
  have hkey : ∀ {field : Str} {k : Str × Str}, readOfferKey obj field = some k →
      hexKey k.1 = some k.2 := by
    intro field k hk
    simp only [readOfferKey, Option.bind_eq_bind, Option.bind_eq_some_iff, Option.some.injEq] at hk
    obtain ⟨hex, -, key, hkey, rfl⟩ := hk
    rw [hexKey_lower]
    exact hkey
  simp only [readOfferKeys, Option.bind_eq_bind, Option.bind_eq_some_iff, Option.some.injEq] at h
  obtain ⟨response, hr, autoIsolate, ha, policy, hp, heq⟩ := h
  cases heq
  simp [TrustBundle.keys, hkey hr, hkey ha, hkey hp]

theorem acceptBundle_wp {sig : Str} (hd : PinDisk C d) (hu : Unpinned C d t.pinView) (hkeys : b.keys = some keys)
    (hbound : b.epoch < 2 ^ 63 - 8) : (acceptBundle C t b keys sig).wp atomicPins (PinStop C d)
      (fun u d' => PinMove C d t.pinView d' u.pinView) d := by
  have hstay := PinMove.refl hd (.inl hu)
  refine Prog.wp_ite (fun _ => hstay) fun htenant => ?_
  refine Prog.wp_ite (fun _ => hstay) fun hge => ?_
  refine Prog.wp_ite (fun _ => hstay) fun hfits => ?_
  refine Prog.wp_ite (fun _ => hstay) fun _ => ?_
  refine Prog.wp_ite (fun _ => hstay) fun _ => ?_
  refine Prog.wp_ite (fun _ => hstay) fun hverify => ?_
  have hpos := hd.floor_pos
  have hfloor : t.epochFloor = diskFloor d := hu.floor
  have hreleased : b.Released C := by
    refine ⟨base64Decode sig 160, ?_⟩
    by_contra hno
    exact hverify (.inr (by simpa using hno))
  exact pinBundle_wp hd hu ⟨not_not.mp htenant, by omega, hbound, hkeys, by omega⟩ hreleased (by omega)

theorem heartbeatPin_wp (hd : PinDisk C d) (ha : PinAgent C d t.pinView) (resp : Str) :
    (heartbeatPin C t resp).wp atomicPins (PinStop C d) (fun u d' => PinMove C d t.pinView d' u.pinView) d := by
  have hstay := PinMove.refl hd ha
  unfold heartbeatPin
  split
  case h_2 => exact hstay
  case h_1 obj _ =>
    unfold pinKeys
    split
    case h_1 => exact hstay
    case h_2 hex keys hkeys =>
      refine Prog.wp_ite (fun _ => hstay) fun hpinned => ?_
      rcases ha with hu | ⟨b, hb⟩
      · split
        case h_1 => exact hstay
        case h_2 tenant epoch sig hsig =>
          simp only [readOfferSignature, Option.bind_eq_bind, Option.bind_eq_some_iff,
            Option.some.injEq] at hsig
          obtain ⟨tenant', -, sig', -, epoch', hepoch, heq⟩ := hsig
          cases heq
          exact acceptBundle_wp hd hu (readOfferKeys_keys hkeys) (memberInt_readable hepoch).2
      · -- an agent that holds its keys takes no others
        refine absurd ?_ hpinned
        have hhave : t.haveKey = ⟨true, true, true⟩ := hb.haveKey
        simp [TrustContext.pinned, hhave]

end Disk

end Ominull.Agent
