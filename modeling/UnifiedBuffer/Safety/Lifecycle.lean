import UnifiedBuffer.Inventory.Operations
import UnifiedBuffer.Safety.Usage

set_option autoImplicit false

/-! # The lifecycle of a buffer

Seven paths of the code write the state of a buffer, and only `map` asks `valid_transition` first.
That the others keep to the table rests on what the states say about leases and maps: a buffer in
use has a lease, a mapped one has a map, and a finalization comes when neither is left. -/

namespace UnifiedBuffer

open Lib

/-! ## The invariant -/

namespace Core

/-- The leases are counted right, live buffers are in order and the others released. -/
structure Ordered (c : Core) (held : LeaseKind → CtlId → Nat) : Prop where
  leases : ∀ kd j, j < c.ctls.length → (c.control j).use.leases kd = held kd j
  alive : ∀ j, c.Alive j → (c.control j).use.InOrder
  done : ∀ j, j < c.ctls.length → (c.control j).finalized = true →
    (c.control j).record.state = .released

/-- Between the two states no buffer has changed its state more than once: it has taken a way of
the table, or was finalized with no lease and no map left. -/
structure Follows (c c' : Core) : Prop where
  edges : ∀ j, c.Alive j → (c.control j).use.Follows (c'.control j).use
  final : ∀ j, c.Alive j → (c'.control j).finalized = true →
    ((c.control j).record.state = .allocated ∨ (c.control j).record.state = .imported) ∧
      (c'.control j).record.state = .released
  done : ∀ j, j < c.ctls.length → (c.control j).finalized = true →
    (c'.control j).record.state = (c.control j).record.state

variable {c c' : Core} {k : CtlId} {f : Use → Use} {held held' : LeaseKind → CtlId → Nat}

theorem Follows.refl (c : Core) : c.Follows c :=
  ⟨fun _ _ => Or.inl rfl, fun _ hj hf => absurd (hj.2.symm.trans hf) nofun, fun _ _ _ => rfl⟩

theorem SameUses.alive (h : c.SameUses c') (j : CtlId) : c'.Alive j ↔ c.Alive j := by
  have hfin : (c'.control j).finalized = (c.control j).finalized :=
    congrArg Use.finalized (h.uses j)
  unfold Alive
  rw [h.length, hfin]

theorem Ordered.same (h : c.Ordered held) (hs : c.SameUses c') :
    c'.Ordered held ∧ c.Follows c' := by
  refine ⟨⟨fun kd j hj => ?_, fun j hj => ?_, fun j hj hf => ?_⟩, fun j _ => Or.inl ?_,
    fun j hj hf => ?_, fun j hj hf => ?_⟩
  · rw [hs.uses, h.leases kd j (hs.length ▸ hj)]
  · rw [hs.uses]
    exact h.alive j ((hs.alive j).mp hj)
  · have hstate : (c'.control j).record.state = (c.control j).record.state :=
      congrArg Use.state (hs.uses j)
    have hfin : (c'.control j).finalized = (c.control j).finalized :=
      congrArg Use.finalized (hs.uses j)
    rw [hstate]
    exact h.done j (hs.length ▸ hj) (hfin ▸ hf)
  · rw [hs.uses]
  · rw [((hs.alive j).mpr hj).2] at hf
    cases hf
  · exact congrArg Use.state (hs.uses j)

theorem SameUses.follows {c'' : Core} (h : c.SameUses c') (h' : c'.Follows c'') :
    c.Follows c'' := by
  have hstate : ∀ j, (c'.control j).record.state = (c.control j).record.state := fun j =>
    congrArg Use.state (h.uses j)
  have hfin : ∀ j, (c'.control j).finalized = (c.control j).finalized := fun j =>
    congrArg Use.finalized (h.uses j)
  refine ⟨fun j hj => ?_, fun j hj hf => ?_, fun j hj hf => ?_⟩
  · rw [← h.uses]
    exact h'.edges j ((h.alive j).mpr hj)
  · rw [← hstate]
    exact h'.final j ((h.alive j).mpr hj) hf
  · rw [← hstate]
    exact h'.done j (h.length ▸ hj) ((hfin j).trans hf)

/-- A change of the use of one live block. -/
theorem Ordered.changes (h : c.Ordered held) (hk : c.Alive k) (hc : c.Changes k f c')
    (hheld : ∀ kd j, j ≠ k → held' kd j = held kd j)
    (hleases : ∀ kd, (f (c.control k).use).leases kd = held' kd k)
    (hfollows : (c.control k).use.Follows (f (c.control k).use))
    (horder : (f (c.control k).use).finalized = false → (f (c.control k).use).InOrder)
    (hfinal : (f (c.control k).use).finalized = true →
      ((c.control k).record.state = .allocated ∨ (c.control k).record.state = .imported) ∧
        (f (c.control k).use).state = .released) :
    c'.Ordered held' ∧ c.Follows c' := by
  have hother : ∀ j, j ≠ k → (c'.control j).finalized = (c.control j).finalized ∧
      (c'.control j).record.state = (c.control j).record.state := fun j hj =>
    ⟨congrArg Use.finalized (hc.others j hj), congrArg Use.state (hc.others j hj)⟩
  have hfin : (f (c.control k).use).finalized = (c'.control k).finalized :=
    (congrArg Use.finalized hc.block).symm
  have hstate : (f (c.control k).use).state = (c'.control k).record.state :=
    (congrArg Use.state hc.block).symm
  rw [hfin] at horder hfinal
  rw [hstate] at hfinal
  -- every part twice: for the block that changed and for the others
  refine ⟨⟨fun kd j hj => ?_, fun j hj => ?_, fun j hj hf => ?_⟩, fun j hj => ?_,
    fun j hj hf => ?_, fun j hj hf => ?_⟩ <;> by_cases hjk : j = k
  · subst hjk
    rw [hc.block, hleases]
  · rw [hc.others j hjk, hheld kd j hjk, h.leases kd j (hc.length ▸ hj)]
  · subst hjk
    rw [hc.block]
    exact horder hj.2
  · rw [hc.others j hjk]
    exact h.alive j ⟨hc.length ▸ hj.1, (hother j hjk).1 ▸ hj.2⟩
  · subst hjk
    exact (hfinal hf).2
  · rw [(hother j hjk).2]
    exact h.done j (hc.length ▸ hj) ((hother j hjk).1 ▸ hf)
  · subst hjk
    rw [hc.block]
    exact hfollows
  · rw [hc.others j hjk]
    exact Or.inl rfl
  · subst hjk
    exact hfinal hf
  · rw [(hother j hjk).1, hj.2] at hf
    cases hf
  · subst hjk
    rw [hk.2] at hf
    cases hf
  · exact (hother j hjk).2

/-- A change that keeps a live block alive and in order. -/
theorem Ordered.uses (h : c.Ordered held) (hk : c.Alive k) (hc : c.Changes k f c')
    (hheld : ∀ kd j, j ≠ k → held' kd j = held kd j)
    (hleases : ∀ kd, (f (c.control k).use).leases kd = held' kd k)
    (hfin : (f (c.control k).use).finalized = (c.control k).finalized)
    (horder : (f (c.control k).use).InOrder ∧ (c.control k).use.Follows (f (c.control k).use)) :
    c'.Ordered held' ∧ c.Follows c' := by
  refine h.changes hk hc hheld hleases horder.2 (fun _ => horder.1) fun hdone => ?_
  rw [hfin, hk.2] at hdone
  cases hdone

/-- A new block that is in order. -/
theorem Ordered.grows (h : c.Ordered held) (hlen : c'.ctls.length = c.ctls.length + 1)
    (hold : ∀ j, j < c.ctls.length → (c'.control j).use = (c.control j).use)
    (hheld : ∀ kd j, j < c.ctls.length → held' kd j = held kd j)
    (hnew : (c'.control c.ctls.length).use.finalized = false ∧
      (∀ kd, (c'.control c.ctls.length).use.leases kd = held' kd c.ctls.length) ∧
      (c'.control c.ctls.length).use.InOrder) : c'.Ordered held' ∧ c.Follows c' := by
  have hcases : ∀ {j}, j < c'.ctls.length → j < c.ctls.length ∨ j = c.ctls.length := by
    intro j hj
    omega
  have hfin : ∀ {j}, j < c.ctls.length → (c'.control j).finalized = (c.control j).finalized :=
    fun hj => congrArg Use.finalized (hold _ hj)
  have hstate : ∀ {j}, j < c.ctls.length →
      (c'.control j).record.state = (c.control j).record.state :=
    fun hj => congrArg Use.state (hold _ hj)
  refine ⟨⟨fun kd j hj => ?_, fun j hj => ?_, fun j hj hf => ?_⟩, fun j hj => Or.inl ?_,
    fun j hj hf => ?_, fun j hj _ => hstate hj⟩
  · rcases hcases hj with hlt | rfl
    · rw [hold j hlt, hheld kd j hlt, h.leases kd j hlt]
    · exact hnew.2.1 kd
  · rcases hcases hj.1 with hlt | rfl
    · rw [hold j hlt]
      exact h.alive j ⟨hlt, hfin hlt ▸ hj.2⟩
    · exact hnew.2.2
  · rcases hcases hj with hlt | rfl
    · rw [hstate hlt]
      exact h.done j hlt (hfin hlt ▸ hf)
    · exact absurd (hnew.1.symm.trans hf) nofun
  · rw [hold j hj.1]
  · rw [hfin hj.1, hj.2] at hf
    cases hf

/-- A finalization of a block without leases and maps. -/
theorem Ordered.finalize (h : c.Ordered held) (env : Env) (hk : c.Alive k)
    (hunused : (∀ kd, held kd k = 0) ∧ (c.control k).record.mapCount = 0) :
    (c.finalize env k true).Ordered held ∧ c.Follows (c.finalize env k true) := by
  obtain ⟨ownership, hc⟩ := c.finalize_changes env hk
  have hidle : (c.control k).use.state = .allocated ∨ (c.control k).use.state = .imported := by
    refine (h.alive k hk).unused (fun kd => ?_) hunused.2
    rw [h.leases kd k hk.1, hunused.1 kd]
    rfl
  refine h.changes hk hc (fun _ _ _ => rfl) (fun kd => h.leases kd k hk.1) (Or.inr ?_) nofun
    fun _ => ⟨hidle, rfl⟩
  rcases hidle with hs | hs <;> rw [hs] <;> rfl

end Core

/-! ## One operation -/

/-- Letting go of an object that is counted. -/
theorem Use.InOrder.putDown {u : Use} (h : u.InOrder) {o : Obj}
    (hlease : ∀ l, o = .lease l → 0 < u.leases l.kind) (hmap : ∀ m, o = .map m → 0 < u.maps) :
    (o.putDown u).InOrder ∧ u.Follows (o.putDown u) := by
  cases o with
  | handle _ | view _ => exact ⟨h, Or.inl rfl⟩
  | lease l => exact h.unlease (hlease l rfl)
  | map m => exact h.unmap (hmap m rfl)

theorem putDown_leases {o : Obj} {k : CtlId} (hpin : o.pin = some k) (u : Use) (kd : LeaseKind) :
    (o.putDown u).leases kd = u.leases kd - if o.leasePin kd = some k then 1 else 0 := by
  cases o with
  | handle _ | view _ | map _ => simp [Obj.putDown, Obj.leasePin, Use.unmap]
  | lease l =>
      have hctl : l.ctl = some k := hpin
      by_cases hkd : kd = l.kind
      · simp [Obj.putDown, Obj.leasePin, Use.unlease, hkd, hctl]
      · simp [Obj.putDown, Obj.leasePin, Use.unlease, hkd, Ne.symm hkd]

theorem Core.letGo_changes {c : Core} {k : CtlId} (hk : k < c.ctls.length) {o : Obj}
    (hlease : ∀ l, o = .lease l → 0 < (c.control k).leases l.kind)
    (hmap : ∀ m, o = .map m → 0 < (c.control k).record.mapCount) :
    c.Changes k o.putDown (o.letGo c k) := by
  cases o with
  | handle _ | view _ => exact ⟨rfl, rfl, fun _ _ => rfl⟩
  | lease l => exact changes_modify hk (unlease_use (hlease l rfl))
  | map m =>
      have hunmap := changes_modify (f := Use.unmap)
        (g := fun ctl => { ctl with record := unmapOnce ctl.record }) hk
        (unmapOnce_use (hmap m rfl))
      exact hunmap.trans_same (.of_ctls rfl)

namespace World

variable {w : World} {op : Op} {base : List BufferId}

/-- The runtime in the middle of an operation: a lease or map that is released was counted down,
the reference not yet dropped. -/
def letGo (w : World) (op : Op) : Core :=
  match w.dropped op with
  | none => w.core
  | some o =>
      match o.pin with
      | none => w.core
      | some k => o.letGo w.core k

theorem letGo_still (h : w.released op = none) : w.letGo op = w.core := by
  unfold letGo
  rw [released_eq] at h
  cases ho : w.dropped op with
  | none => rfl
  | some o =>
      rw [ho, Option.bind_some] at h
      simp only [h]

/-- The second stage drops the reference. -/
theorem RefInv.next_letGo (hinv : w.RefInv base) {env : Env} {k : CtlId}
    (henv : op.releases = some env) (hrel : w.released op = some k) :
    (w.next op).core = (w.letGo op).dropRef env k := by
  rw [released_eq] at hrel
  obtain ⟨o, ho, hpin⟩ := Option.bind_eq_some_iff.mp hrel
  obtain ⟨env', henv', -, hcore, -⟩ := hinv.dropped_next ho
  obtain rfl : env' = env := Option.some.inj (henv'.symm.trans henv)
  rw [hcore]
  unfold letGo Obj.releaseCore
  simp only [ho, hpin]

/-- What the lifecycle needs to know between two operations. -/
def InOrder (w : World) : Prop := w.core.Ordered w.leases

/-- The object that is released is counted by its block. -/
theorem InOrder.dropped_counted (h : w.InOrder) (hinv : w.RefInv base) {o : Obj} {k : CtlId}
    (hdrop : w.dropped op = some o) (hpin : o.pin = some k)
    (hcounts : ∀ kd j, (w.next op).leases kd j + (if o.leasePin kd = some j then 1 else 0)
      = w.leases kd j) :
    w.core.Alive k ∧ (∀ l, o = .lease l → 0 < (w.core.control k).leases l.kind) ∧
      ∀ m, o = .map m → 0 < (w.core.control k).record.mapCount := by
  obtain ⟨-, -, hmem, -, -⟩ := hinv.dropped_next hdrop
  obtain ⟨i, ho⟩ := List.mem_iff_getElem?.mp hmem
  have hk : w.core.Alive k := hinv.alive (w.pins_pos ho hpin)
  refine ⟨hk, ?_, ?_⟩
  · rintro l rfl
    have hcount := hcounts l.kind k
    have hctl : l.ctl = some k := hpin
    have hleases : (w.core.control k).leases l.kind = w.leases l.kind k := h.leases l.kind k hk.1
    simp only [Obj.leasePin, if_true, hctl] at hcount
    omega
  · rintro m rfl
    have hpos := w.maps_pos ho hpin
    have hmaps : (w.core.control k).record.mapCount = w.maps k :=
      hinv.core.mapCount k _ (views_get w.core hk.1)
    rw [hmaps]
    omega

/-- The two stages of the release of an object. -/
theorem InOrder.drops (h : w.InOrder) (hinv : w.RefInv base) {o : Obj} {k : CtlId} {env : Env}
    (hdrop : w.dropped op = some o) (hpin : o.pin = some k)
    (hcounts : ∀ kd j, (w.next op).leases kd j + (if o.leasePin kd = some j then 1 else 0)
      = w.leases kd j)
    (hcore : (w.next op).core = (o.letGo w.core k).dropRef env k) :
    ((o.letGo w.core k).Ordered (w.next op).leases ∧ w.core.Follows (o.letGo w.core k)) ∧
      (w.next op).InOrder ∧ (o.letGo w.core k).Follows (w.next op).core := by
  obtain ⟨hk, hlease, hmap⟩ := h.dropped_counted hinv hdrop hpin hcounts
  have hchanges := Core.letGo_changes hk.1 hlease hmap
  have hfirst : (o.letGo w.core k).Ordered (w.next op).leases ∧
      w.core.Follows (o.letGo w.core k) := by
    refine Core.Ordered.uses h hk hchanges (fun kd j hj => ?_) (fun kd => ?_) ?_
      ((h.alive k hk).putDown hlease hmap)
    · have hne : ¬ o.leasePin kd = some j := fun hj' =>
        hj (Option.some.inj ((Obj.leasePin_eq_pin hj').symm.trans hpin))
      rw [← hcounts kd j, if_neg hne, Nat.add_zero]
    · have hcount := hcounts kd k
      rw [putDown_leases hpin, h.leases kd k hk.1]
      split at hcount
      · rename_i hpinned
        rw [if_pos hpinned]
        omega
      · rename_i hfree
        rw [if_neg hfree]
        omega
    · cases o <;> rfl
  refine ⟨hfirst, ?_⟩
  -- the reference is dropped
  obtain ⟨hk₁, halive₁, -⟩ := Effects.letGo_alive o w.core hk.1 hk.2
  generalize o.letGo w.core k = c₁ at hcore hfirst hk₁ halive₁ ⊢
  have hdown : c₁.SameUses (c₁.modify k fun ctl => { ctl with refs := ctl.refs - 1 }) :=
    c₁.sameUses_modify k fun _ => rfl
  unfold Core.dropRef at hcore
  simp only at hcore
  generalize c₁.modify k (fun ctl => { ctl with refs := ctl.refs - 1 }) = c₂ at hcore hdown
  unfold InOrder
  split at hcore
  · have hk₂ : c₂.Alive k := (hdown.alive k).mpr ⟨hk₁, halive₁⟩
    have hinv' := hinv.next op
    obtain ⟨ownership, hfinal⟩ := c₂.finalize_changes env hk₂
    -- nothing refers to the block any more
    have hlen : k < (w.next op).core.ctls.length := by
      rw [hcore, hfinal.length]
      exact hk₂.1
    have hpins : (w.next op).pins k = 0 := by
      refine (hinv'.core.finalized k _ (views_get _ hlen)).mp ?_
      show ((w.next op).core.control k).finalized = true
      rw [hcore]
      exact Core.finalize_finalized env hk₂.1 hk₂.2
    have hunused : (∀ kd, (w.next op).leases kd k = 0) ∧ (c₂.control k).record.mapCount = 0 := by
      refine ⟨fun kd => Nat.le_zero.mp (hpins ▸ (w.next op).leases_le_pins kd k), ?_⟩
      have hzero : (w.next op).maps k = 0 := Nat.le_zero.mp (hpins ▸ (w.next op).maps_le_pins k)
      have hcount : ((w.next op).core.control k).record.mapCount = (w.next op).maps k :=
        hinv'.core.mapCount k _ (views_get _ hlen)
      have hkept : ((w.next op).core.control k).record.mapCount = (c₂.control k).record.mapCount := by
        rw [hcore]
        exact congrArg Use.maps hfinal.block
      rw [← hkept, hcount, hzero]
      rfl
    obtain ⟨hordered, hfollows⟩ := (hfirst.1.same hdown).1.finalize env hk₂ hunused
    rw [hcore]
    exact ⟨hordered, hdown.follows hfollows⟩
  · rw [hcore]
    exact hfirst.1.same hdown

/-- **One operation**: both stages keep to the table. -/
theorem InOrder.step (h : w.InOrder) (hinv : w.RefInv base) (op : Op) :
    (∃ held, (w.letGo op).Ordered held) ∧ w.core.Follows (w.letGo op) ∧
      (w.next op).InOrder ∧ (w.letGo op).Follows (w.next op).core := by
  -- an operation in one stage
  have hwhole : w.released op = none → (w.next op).InOrder ∧ w.core.Follows (w.next op).core →
      (∃ held, (w.letGo op).Ordered held) ∧ w.core.Follows (w.letGo op) ∧
        (w.next op).InOrder ∧ (w.letGo op).Follows (w.next op).core := by
    intro hstill hnext
    rw [letGo_still hstill]
    exact ⟨⟨_, h⟩, .refl _, hnext⟩
  cases hinv.turn op with
  | rests still counts blocks =>
      refine hwhole still ?_
      have hleases : (w.next op).leases = w.leases := funext fun kd => funext fun j => counts kd j
      unfold InOrder
      rw [hleases]
      exact Core.Ordered.same h blocks
  | @created u still counts length new unused state old =>
      refine hwhole still (Core.Ordered.grows h length old (fun kd j hj => counts kd j) ?_)
      rw [new]
      refine ⟨unused.2.2, fun kd => ?_, ?_⟩
      · have hnone := (hinv.core.bound w.core.ctls.length
          (Nat.le_of_eq (List.length_map _))).1
        have hle := w.leases_le_pins kd w.core.ctls.length
        rw [unused.1, counts]
        omega
      · exact .start unused.1 unused.2.1 state
  | leased hop valid free counts blocks =>
      refine hwhole (by rw [hop]; rfl) ?_
      have hk : w.core.Alive _ := hinv.alive (handle_alive hinv valid).1
      refine Core.Ordered.uses h hk blocks (fun kd j hj => ?_) (fun kd => ?_) rfl
        ((h.alive _ hk).lease _)
      · rw [counts, if_neg fun hboth => hj hboth.2, Nat.add_zero]
      · rw [counts]
        simp only [Use.lease, h.leases kd _ hk.1, and_true]
        split <;> simp
  | mapped still alive counts blocks =>
      refine hwhole still ?_
      refine Core.Ordered.uses h alive blocks (fun kd j _ => counts kd j) (fun kd => ?_) rfl
        (h.alive _ alive).map
      rw [counts]
      exact h.leases kd _ alive.1
  | moved still _ alive counts blocks =>
      refine hwhole still ?_
      refine Core.Ordered.uses h alive blocks (fun kd j _ => counts kd j) (fun kd => ?_) rfl
        (h.alive _ alive).move
      rw [counts]
      exact h.leases kd _ alive.1
  | @dropped o k env drop pin counts core =>
      obtain ⟨hfirst, hsecond⟩ := h.drops hinv drop pin counts core
      have hmid : w.letGo op = o.letGo w.core k := by
        unfold letGo
        simp only [drop, pin]
      rw [hmid]
      exact ⟨⟨_, hfirst.1⟩, hfirst.2, hsecond⟩

/-- The first stage only changes what is counted. -/
theorem letGo_adjusted (w : World) (op : Op) : w.core.Adjusted (w.letGo op) := by
  unfold letGo
  split
  · exact .refl _
  · split
    · exact .refl _
    · exact Core.adjusted_letGo _ _ _

theorem inOrder_reach {ok : World → Op → Prop} {cfg : RuntimeConfig}
    {plat : RuntimeImpl.Platform} (h : Reach World.next ok (World.init cfg plat) w) :
    w.InOrder ∧ w.RefInv [] := by
  refine h.invariant (I := fun w => w.InOrder ∧ w.RefInv []) ?_ fun v op hv _ => ?_
  · exact ⟨⟨fun _ _ hj => absurd hj (Nat.not_lt_zero _), fun _ hj => absurd hj.1 (Nat.not_lt_zero _),
      fun _ hj => absurd hj (Nat.not_lt_zero _)⟩, refInv_init cfg plat⟩
  · exact ⟨(hv.1.step hv.2 op).2.2.1, hv.2.next op⟩

end World

/-! ## The table of transitions -/

/-- The registry has an entry for the block. -/
def Core.Registered (c : Core) (k : CtlId) : Prop := ∃ id, c.rt.registry.find? id = some k

theorem World.RefInv.registered_iff_alive {w : World} {base : List BufferId} (h : w.RefInv base)
    (k : CtlId) : w.core.Registered k ↔ w.core.Alive k := by
  unfold Core.Alive
  rw [← h.registered_iff k, List.mem_map]
  constructor
  · rintro ⟨id, hfind⟩
    exact ⟨(id, k), (w.core.rt.registry.mem_entries_iff id k).mpr hfind, rfl⟩
  · rintro ⟨e, he, rfl⟩
    exact ⟨e.1, (w.core.rt.registry.mem_entries_iff e.1 e.2).mp he⟩

/-- From `c` to `c'` every buffer changes its state at most once, and along the table. -/
structure Core.KeepsTable (c c' : Core) : Prop where
  known : ∀ k, c.Registered k →
    (c.control k).record.state ∈ [.allocated, .mapped, .inUse, BufferState.imported]
  edge : ∀ k, c.Registered k → (c'.control k).record.state = (c.control k).record.state ∨
    validTransition (c.control k).record.state (c'.control k).record.state = true
  final : ∀ k, c.Registered k → ¬ c'.Registered k →
    ((c.control k).record.state = .allocated ∨ (c.control k).record.state = .imported) ∧
      (c'.control k).record.state = .released
  released : ∀ k, k < c.ctls.length → ¬ c.Registered k →
    (c.control k).record.state = .released ∧ (c'.control k).record.state = .released

theorem Core.Ordered.keepsTable {c c' : Core} {held : LeaseKind → CtlId → Nat}
    (h : c.Ordered held) (hfollows : c.Follows c') (hreg : ∀ k, c.Registered k ↔ c.Alive k)
    (hreg' : ∀ k, c.Alive k → (c'.Registered k ↔ (c'.control k).finalized = false)) :
    c.KeepsTable c' := by
  refine ⟨fun k hk => (h.alive k ((hreg k).mp hk)).known, fun k hk => hfollows.edges k ((hreg k).mp hk),
    fun k hk hk' => ?_, fun k hk hk' => ?_⟩
  · have halive := (hreg k).mp hk
    rw [hreg' k halive, Bool.not_eq_false] at hk'
    exact hfollows.final k halive hk'
  · have hdone : (c.control k).finalized = true := by
      cases hfin : (c.control k).finalized with
      | true => rfl
      | false => exact absurd ((hreg k).mpr ⟨hk, hfin⟩) hk'
    have hstate := h.done k hk hdone
    exact ⟨hstate, (hfollows.done k hk hdone).trans hstate⟩

namespace World

variable {w : World} {base : List BufferId}

theorem InOrder.keepsTable (h : w.InOrder) (hinv : w.RefInv base) (op : Op) :
    w.core.KeepsTable (w.letGo op) ∧ (w.letGo op).KeepsTable (w.next op).core := by
  obtain ⟨⟨held, hmid⟩, hfirst, -, hsecond⟩ := h.step hinv op
  have hadj := w.letGo_adjusted op
  have hregistry : ∀ k, (w.letGo op).Registered k ↔ (w.letGo op).Alive k := by
    intro k
    have hsame : (w.letGo op).Registered k ↔ w.core.Registered k := by
      unfold Core.Registered
      rw [hadj.quiet.registry]
    rw [hsame, hinv.registered_iff_alive k]
    unfold Core.Alive
    rw [hadj.length, (hadj.blocks k).finalized]
  refine ⟨Core.Ordered.keepsTable h hfirst hinv.registered_iff_alive fun k hk => ?_,
    hmid.keepsTable hsecond hregistry fun k hk => ?_⟩
  · rw [hregistry k]
    exact ⟨And.right, fun hf => ⟨hadj.length ▸ hk.1, hf⟩⟩
  · rw [(hinv.next op).registered_iff_alive k]
    exact ⟨And.right, fun hf => ⟨Nat.lt_of_lt_of_le (hadj.length ▸ hk.1) (hinv.ages op).length, hf⟩⟩

/-- A released record keeps its state. -/
theorem InOrder.released_runs (h : w.InOrder) (hinv : w.RefInv base) {k : CtlId}
    (hk : k < w.core.ctls.length) (hreleased : (w.core.control k).record.state = .released)
    (ops : List Op) :
    ((Lib.runs World.next w ops).core.control k).record.state = .released := by
  induction ops generalizing w with
  | nil => exact hreleased
  | cons op ops ih =>
      obtain ⟨hfirst, hsecond⟩ := h.keepsTable hinv op
      have hgone : ∀ {c c' : Core}, c.KeepsTable c' → (c.control k).record.state = .released →
          ¬ c.Registered k := by
        intro c c' htable hstate hreg
        have hknown := htable.known k hreg
        rw [hstate] at hknown
        revert hknown
        decide
      have hmid := (hfirst.released k hk (hgone hfirst hreleased)).2
      refine ih (h.step hinv op).2.2.1 (hinv.next op) ?_ ?_
      · exact Nat.lt_of_lt_of_le hk (hinv.ages op).length
      · exact (hsecond.released k ((w.letGo_adjusted op).length ▸ hk) (hgone hsecond hmid)).2

end World

/-- **The states keep to the table.** In every run, both stages of every operation change the state
of a registered buffer only along `valid_transition`; a registered buffer is allocated, mapped, in
use or imported, allocated or imported when it is finalized, and a released record stays so. -/
theorem states_keep_table {cfg : RuntimeConfig} {plat : RuntimeImpl.Platform} {w : World}
    (hreach : Reach World.next (fun _ _ => True) (World.init cfg plat) w) (op : Op) :
    w.core.KeepsTable (w.letGo op) ∧ (w.letGo op).KeepsTable (w.next op).core ∧
      ∀ k, k < w.core.ctls.length → (w.core.control k).record.state = .released →
        ∀ ops, ((runs World.next w ops).core.control k).record.state = .released := by
  obtain ⟨horder, hinv⟩ := World.inOrder_reach hreach
  obtain ⟨hfirst, hsecond⟩ := horder.keepsTable hinv op
  exact ⟨hfirst, hsecond, fun k hk hreleased ops => horder.released_runs hinv hk hreleased ops⟩

/-- A page with a write lease, whose handle was released. -/
def leasedPage : World :=
  runs World.next (World.init {} {})
    [.allocate (.findsAt 4096) { size := 4096 }, .acquire .write 0, .release {} 0]

/-- The release of the lease takes the page from `IN_USE` over `ALLOCATED` to `RELEASED`. -/
theorem states_keep_table_leasedPage :
    ((leasedPage.core.control 0).record.state = .inUse ∧
      ((leasedPage.letGo (.release {} 1)).control 0).record.state = .allocated ∧
      ((leasedPage.next (.release {} 1)).core.control 0).record.state = .released) ∧
    leasedPage.core.KeepsTable (leasedPage.letGo (.release {} 1)) ∧
      (leasedPage.letGo (.release {} 1)).KeepsTable (leasedPage.next (.release {} 1)).core := by
  have hreach : Reach World.next (fun _ _ => True) (World.init {} {}) leasedPage :=
    reach_runs .start ⟨trivial, trivial, trivial, trivial⟩
  obtain ⟨hfirst, hsecond, -⟩ := states_keep_table hreach (.release {} 1)
  exact ⟨⟨by decide, by decide, by decide⟩, hfirst, hsecond⟩

/-! ## The state as a sign of leases and maps -/

namespace Use

variable {u : Use}

/-- The state tells whether there is a lease and, if not, whether there is a map. -/
structure Reflects (u : Use) : Prop where
  inUse : u.state = .inUse ↔ u.Leased
  mapped : ¬ u.Leased → (u.state = .mapped ↔ 0 < u.maps)
  allocated : ¬ u.Leased → ¬ 0 < u.maps → u.state = .allocated

theorem reflects_iff : u.Reflects ↔ (u.state = .inUse ∧ u.Leased) ∨
    (u.state = .mapped ∧ ¬ u.Leased ∧ 0 < u.maps) ∨
    (u.state = .allocated ∧ ¬ u.Leased ∧ ¬ 0 < u.maps) := by
  constructor
  · intro h
    by_cases hl : u.Leased
    · exact Or.inl ⟨h.inUse.mpr hl, hl⟩
    by_cases hm : 0 < u.maps
    · exact Or.inr (Or.inl ⟨(h.mapped hl).mpr hm, hl, hm⟩)
    · exact Or.inr (Or.inr ⟨h.allocated hl hm, hl, hm⟩)
  · rintro (⟨hs, hl⟩ | ⟨hs, hl, hm⟩ | ⟨hs, hl, hm⟩)
    · exact ⟨iff_of_true hs hl, fun hn => absurd hl hn, fun hn => absurd hl hn⟩
    · exact ⟨iff_of_false (by rw [hs]; exact nofun) hl, fun _ => iff_of_true hs hm,
        fun _ hn => absurd hm hn⟩
    · exact ⟨iff_of_false (by rw [hs]; exact nofun) hl,
        fun _ => iff_of_false (by rw [hs]; exact nofun) hm, fun _ _ => hs⟩

/-- With a lease, the state has to be `IN_USE`. -/
theorem reflects_leased (hl : u.Leased) : u.Reflects ↔ u.state = .inUse :=
  ⟨fun h => h.inUse.mpr hl, fun hs => reflects_iff.mpr (Or.inl ⟨hs, hl⟩)⟩

theorem leased_lease (horder : u.InOrder) (kind : LeaseKind) : (u.lease kind).Leased := by
  have hle := horder.leases kind
  refine ⟨kind, ?_⟩
  simp only [lease, if_true]
  omega

/-- One more lease, of a kind that does not matter to a mapped buffer. -/
theorem Reflects.lease_iff (h : u.Reflects) (horder : u.InOrder) (kind : LeaseKind) :
    (u.lease kind).Reflects ↔ ¬ (kind = .read ∧ u.state = .mapped) := by
  rw [reflects_leased (leased_lease horder kind)]
  rcases reflects_iff.mp h with ⟨hs, -⟩ | ⟨hs, -⟩ | ⟨hs, -⟩ <;> cases kind <;>
    simp [Use.lease, hs]

theorem Reflects.map (h : u.Reflects) (horder : u.InOrder) : u.map.Reflects := by
  have hmaps : 0 < u.map.maps := by
    have := horder.maps
    simp only [Use.map]
    omega
  have hleased : u.map.Leased ↔ u.Leased := Iff.rfl
  rw [reflects_iff, hleased]
  rcases reflects_iff.mp h with ⟨hs, hl⟩ | ⟨hs, hl, -⟩ | ⟨hs, hl, -⟩
  · exact Or.inl ⟨by simp [Use.map, hs, validTransition], hl⟩
  · exact Or.inr (Or.inl ⟨by simp [Use.map, hs, validTransition], hl, hmaps⟩)
  · exact Or.inr (Or.inl ⟨by simp [Use.map, hs, validTransition], hl, hmaps⟩)

theorem Reflects.unmap (h : u.Reflects) (hmap : 0 < u.maps) : u.unmap.Reflects := by
  have hleased : u.unmap.Leased ↔ u.Leased := Iff.rfl
  rw [reflects_iff, hleased]
  rcases reflects_iff.mp h with ⟨hs, hl⟩ | ⟨hs, hl, -⟩ | ⟨-, -, hm⟩
  · exact Or.inl ⟨by simp [Use.unmap, hs], hl⟩
  · by_cases hlast : u.maps - 1 = 0
    · refine Or.inr (Or.inr ⟨by simp [Use.unmap, hs, hlast], hl, ?_⟩)
      simp only [Use.unmap]
      omega
    · refine Or.inr (Or.inl ⟨by simp [Use.unmap, hs, hlast], hl, ?_⟩)
      simp only [Use.unmap]
      omega
  · exact absurd hmap hm

/-- A lease less: the last one must not leave a map behind. -/
theorem Reflects.unlease_iff (h : u.Reflects) (horder : u.InOrder) {kind : LeaseKind}
    (hkind : 0 < u.leases kind) :
    (u.unlease kind).Reflects ↔ ¬ (¬ (u.unlease kind).Leased ∧ 0 < u.maps) := by
  have hs : u.state = .inUse := h.inUse.mpr ⟨kind, hkind⟩
  have horder' := (horder.unlease hkind).1
  by_cases hl : (u.unlease kind).Leased
  · refine iff_of_true ?_ fun hboth => hboth.1 hl
    have hkept : (u.unlease kind).state = u.state := by
      refine if_neg fun hlast => ?_
      obtain ⟨kd, hpos⟩ := hl
      obtain ⟨hread, hwrite, hexcl, -⟩ := hlast
      cases kd
      · exact absurd hread (Int.ne_of_gt hpos)
      · exact absurd hwrite (Int.ne_of_gt hpos)
      · exact absurd hexcl (Int.ne_of_gt hpos)
    rw [reflects_leased hl, hkept, hs]
  · have hzero : ∀ kd, (u.unlease kind).leases kd = 0 := fun kd =>
      Int.le_antisymm (Int.not_lt.mp fun hpos => hl ⟨kd, hpos⟩) (horder'.leases kd)
    have hstate : (u.unlease kind).state = .allocated :=
      if_pos ⟨hzero .read, hzero .write, hzero .exclusive, hs⟩
    have hmaps : (u.unlease kind).maps = u.maps := rfl
    rw [reflects_iff, hstate, hmaps]
    simp [hl]

theorem Reflects.move_iff : u.move.Reflects ↔ ¬ (u.Leased ∨ 0 < u.maps) := by
  have hleased : u.move.Leased ↔ u.Leased := Iff.rfl
  rw [reflects_iff, hleased]
  simp [Use.move]

/-- A property of uses that the operations keep, three cases apart. -/
structure Closed (Q : Use → Prop) : Prop where
  lease : ∀ {u : Use} {kind : LeaseKind}, u.InOrder → Q u →
    ¬ (kind = .read ∧ u.state = .mapped) → Q (u.lease kind)
  map : ∀ {u : Use}, u.InOrder → Q u → Q u.map
  unlease : ∀ {u : Use} {kind : LeaseKind}, u.InOrder → 0 < u.leases kind → Q u →
    ¬ (¬ (u.unlease kind).Leased ∧ 0 < u.maps) → Q (u.unlease kind)
  unmap : ∀ {u : Use}, 0 < u.maps → Q u → Q u.unmap
  move : ∀ {u : Use}, ¬ (u.Leased ∨ 0 < u.maps) → Q u → Q u.move

theorem closed_reflects : Closed Reflects where
  lease horder h hno := (h.lease_iff horder _).mpr hno
  map horder h := h.map horder
  unlease horder hkind h hno := (h.unlease_iff horder hkind).mpr hno
  unmap hmap h := h.unmap hmap
  move hno _ := Reflects.move_iff.mpr hno

/-- An imported buffer stays so until it is moved. -/
theorem closed_imported : Closed fun u => u.state = .imported ∨ u.Reflects where
  lease horder h hno := by
    rcases h with hs | h
    · exact Or.inl (by simp [Use.lease, hs])
    · exact Or.inr ((h.lease_iff horder _).mpr hno)
  map horder h := by
    rcases h with hs | h
    · exact Or.inl (by simp [Use.map, hs, validTransition])
    · exact Or.inr (h.map horder)
  unlease horder hkind h hno := by
    rcases h with hs | h
    · exact Or.inl (by simp [Use.unlease, hs])
    · exact Or.inr ((h.unlease_iff horder hkind).mpr hno)
  unmap hmap h := by
    rcases h with hs | h
    · exact Or.inl (by simp [Use.unmap, hs])
    · exact Or.inr (h.unmap hmap)
  move hno _ := Or.inr (Reflects.move_iff.mpr hno)

end Use

theorem Core.length_dropRef (c : Core) (env : Env) (k : CtlId) :
    (c.dropRef env k).ctls.length = c.ctls.length := by
  unfold Core.dropRef
  simp only
  split
  · exact List.length_set.trans (List.length_modify _ _ _)
  · exact List.length_modify _ _ _

/-- Dropping a reference changes the use of no block that stays alive. -/
theorem Core.dropRef_uses {c : Core} {k : CtlId} (hk : c.Alive k) (env : Env) {j : CtlId}
    (hj : ((c.dropRef env k).control j).finalized = false) :
    ((c.dropRef env k).control j).use = (c.control j).use := by
  have hdown : c.SameUses (c.modify k fun ctl => { ctl with refs := ctl.refs - 1 }) :=
    c.sameUses_modify k fun _ => rfl
  unfold Core.dropRef at hj ⊢
  simp only at hj ⊢
  split
  · rename_i hlast
    rw [if_pos hlast] at hj
    obtain ⟨ownership, hfinal⟩ := Core.finalize_changes env ((hdown.alive k).mpr hk)
    have hjk : j ≠ k := by
      rintro rfl
      exact absurd (hj.symm.trans (congrArg Use.finalized hfinal.block)) nofun
    exact (hfinal.others j hjk).trans (hdown.uses j)
  · exact hdown.uses j

namespace World

variable {w : World} {op : Op} {base : List BufferId} {k : CtlId}

def Leased (w : World) (k : CtlId) : Prop := ∃ kind, 0 < w.leases kind k

/-- The state of block `k` tells whether there is a lease and, if not, whether there is a map. -/
structure Reflects (w : World) (k : CtlId) : Prop where
  inUse : (w.core.control k).record.state = .inUse ↔ w.Leased k
  mapped : ¬ w.Leased k → ((w.core.control k).record.state = .mapped ↔ 0 < w.maps k)
  allocated : ¬ w.Leased k → ¬ 0 < w.maps k → (w.core.control k).record.state = .allocated

/-- The operations after which the state of block `k` no longer tells its use. -/
inductive Blurs (w : World) (op : Op) (k : CtlId) : Prop
  /-- a read lease is granted on a mapped buffer, which stays `MAPPED` -/
  | readMapped {i : Nat} (hop : op = .acquire .read i)
      (valid : (w.handle i).validateAlive w.core = .ok k)
      (free : BufferHandle.leaseConflicts .read (w.core.control k) = false)
      (mapped : (w.core.control k).record.state = .mapped)
  /-- the last lease is released while the buffer is mapped, and takes it to `ALLOCATED` -/
  | lastLease {l : BufferLease} (drop : w.dropped op = some (.lease l)) (ctl : l.ctl = some k)
      (last : ∀ kd, w.leases kd k = if kd = l.kind then 1 else 0) (mapped : 0 < w.maps k)
  /-- a buffer with read leases or maps is migrated, and goes to `ALLOCATED` -/
  | moved (moves : w.moves op k = true) (used : w.Leased k ∨ 0 < w.maps k)

theorem InOrder.leased_iff (h : w.InOrder) (hk : k < w.core.ctls.length) :
    (w.core.control k).use.Leased ↔ w.Leased k := by
  unfold Use.Leased Leased
  simp only [h.leases _ k hk, Int.natCast_pos]

theorem RefInv.maps_eq (hinv : w.RefInv base) (hk : k < w.core.ctls.length) :
    (w.core.control k).use.maps = w.maps k :=
  hinv.core.mapCount k _ (views_get w.core hk)

theorem InOrder.reflects_iff (h : w.InOrder) (hinv : w.RefInv base)
    (hk : k < w.core.ctls.length) : (w.core.control k).use.Reflects ↔ w.Reflects k := by
  have hleased := h.leased_iff hk
  have hmaps : 0 < (w.core.control k).use.maps ↔ 0 < w.maps k := by
    rw [hinv.maps_eq hk, Int.natCast_pos]
  constructor
  · rintro ⟨hi, hm, ha⟩
    rw [hleased] at hi
    rw [hleased, hmaps] at hm ha
    exact ⟨hi, hm, ha⟩
  · rintro ⟨hi, hm, ha⟩
    rw [← hleased] at hi
    rw [← hleased, ← hmaps] at hm ha
    exact ⟨hi, hm, ha⟩

/-- The use of a block that lives on after an operation that does not blur its state. -/
theorem InOrder.keeps (h : w.InOrder) (hinv : w.RefInv base) {Q : Use → Prop}
    (hclosed : Use.Closed Q)
    (hk : w.core.Alive k) (hk' : (w.next op).core.Alive k) (hclear : ¬ w.Blurs op k)
    (hQ : Q (w.core.control k).use) : Q ((w.next op).core.control k).use := by
  have horder := h.alive k hk
  -- a change of another block does not matter
  have hblock : ∀ {j : CtlId} {f : Use → Use} {c : Core}, w.core.Changes j f c →
      (j = k → Q (f (w.core.control k).use)) → Q (c.control k).use := by
    intro j f c hc hf
    by_cases hjk : j = k
    · subst hjk
      rw [hc.block]
      exact hf rfl
    · rw [hc.others k (Ne.symm hjk)]
      exact hQ
  have hused : ∀ {u : Use}, u = (w.core.control k).use → (u.Leased ∨ 0 < u.maps) →
      w.Leased k ∨ 0 < w.maps k := by
    rintro u rfl hu
    rw [h.leased_iff hk.1, hinv.maps_eq hk.1, Int.natCast_pos] at hu
    exact hu
  cases hinv.turn op with
  | rests _ _ blocks =>
      rw [blocks.uses]
      exact hQ
  | created _ _ _ _ _ _ old =>
      rw [old k hk.1]
      exact hQ
  | leased hop valid free _ blocks =>
      refine hblock blocks fun hjk => hclosed.lease horder hQ ?_
      subst hjk
      rintro ⟨rfl, hmapped⟩
      exact hclear (.readMapped hop valid free hmapped)
  | mapped _ _ _ blocks => exact hblock blocks fun _ => hclosed.map horder hQ
  | moved _ moves _ _ blocks =>
      refine hblock blocks fun hjk => hclosed.move (fun hu => ?_) hQ
      subst hjk
      exact hclear (.moved moves (hused rfl hu))
  | @dropped o j env drop pin counts core =>
      obtain ⟨hj, hlease, hmap⟩ := h.dropped_counted hinv drop pin counts
      obtain ⟨hj₁, halive₁, -⟩ := Effects.letGo_alive o w.core hj.1 hj.2
      have hfin : (((o.letGo w.core j).dropRef env j).control k).finalized = false := core ▸ hk'.2
      rw [core, Core.dropRef_uses ⟨hj₁, halive₁⟩ env hfin]
      refine hblock (Core.letGo_changes hj.1 hlease hmap) fun hjk => ?_
      subst hjk
      cases o with
      | handle _ | view _ => exact hQ
      | map m => exact hclosed.unmap (hmap m rfl) hQ
      | lease l =>
          refine hclosed.unlease horder (hlease l rfl) hQ fun hlast => ?_
          refine hclear (.lastLease drop pin (fun kd => ?_) ?_)
          · have hzero : ¬ 0 < ((w.core.control j).use.unlease l.kind).leases kd := fun hpos =>
              hlast.1 ⟨kd, hpos⟩
            have hnonneg := (horder.unlease (hlease l rfl)).1.leases kd
            simp only [Use.unlease, h.leases kd j hj.1] at hzero hnonneg
            by_cases hkd : kd = l.kind
            · subst hkd
              simp only [if_true] at hzero hnonneg ⊢
              omega
            · simp only [hkd, if_false] at hzero hnonneg ⊢
              omega
          · have hmaps := hlast.2
            rw [hinv.maps_eq hj.1, Int.natCast_pos] at hmaps
            exact hmaps

/-- After the three operations the state tells its use no longer. -/
theorem InOrder.blurs (h : w.InOrder) (hinv : w.RefInv base) (hk : w.core.Alive k)
    (hk' : (w.next op).core.Alive k) (hr : (w.core.control k).use.Reflects) (hb : w.Blurs op k) :
    ¬ ((w.next op).core.control k).use.Reflects := by
  have horder := h.alive k hk
  cases hb with
  | readMapped hop valid free mapped =>
      subst hop
      rw [(acquire_granted hinv valid free).2.block, hr.lease_iff horder, Decidable.not_not]
      exact ⟨rfl, mapped⟩
  | moved moves used =>
      rw [(moves_changes hinv moves).2.block, Use.Reflects.move_iff, not_not, h.leased_iff hk.1,
        hinv.maps_eq hk.1, Int.natCast_pos]
      exact used
  | @lastLease l drop ctl last mapped =>
      have hrel : w.released op = some k := by
        rw [released_eq, drop]
        exact ctl
      -- of all that an operation can do only the release of this lease is left
      cases hinv.turn op with
      | rests still | created still | mapped still | moved still =>
          rw [still] at hrel
          cases hrel
      | leased hop =>
          rw [hop] at hrel
          cases hrel
      | @dropped o j env drop' pin counts core =>
          obtain rfl : o = .lease l := Option.some.inj (drop'.symm.trans drop)
          obtain rfl : j = k := Option.some.inj (pin.symm.trans ctl)
          obtain ⟨-, hlease, hmap⟩ := h.dropped_counted hinv drop pin counts
          obtain ⟨hj₁, halive₁, -⟩ := Effects.letGo_alive (.lease l) w.core hk.1 hk.2
          have hfin := hk'.2
          rw [core] at hfin ⊢
          rw [Core.dropRef_uses ⟨hj₁, halive₁⟩ env hfin,
            (Core.letGo_changes hk.1 hlease hmap).block]
          have hkind : 0 < (w.core.control j).use.leases l.kind := hlease l rfl
          show ¬ ((w.core.control j).use.unlease l.kind).Reflects
          rw [hr.unlease_iff horder hkind, not_not, hinv.maps_eq hk.1, Int.natCast_pos]
          refine ⟨?_, mapped⟩
          rintro ⟨kd, hpos⟩
          simp only [Use.unlease, h.leases kd j hk.1, last kd] at hpos
          split at hpos <;> simp at hpos

/-- A new buffer is not used. -/
theorem RefInv.tells_new (hinv : w.RefInv base) (hk : (w.next op).core.Alive k)
    (hnew : ¬ k < w.core.ctls.length) : ((w.next op).core.control k).use.state = .imported ∨
      ((w.next op).core.control k).use.Reflects := by
  cases hinv.turn op with
  | rests _ _ blocks => exact absurd (blocks.length ▸ hk.1) hnew
  | leased _ _ _ _ blocks | mapped _ _ _ blocks | moved _ _ _ _ blocks =>
      exact absurd (blocks.length ▸ hk.1) hnew
  | created _ _ length new unused state _ =>
      obtain rfl : k = w.core.ctls.length :=
        Nat.le_antisymm (Nat.le_of_lt_succ (Nat.lt_of_lt_of_eq hk.1 length)) (Nat.le_of_not_lt hnew)
      rw [new]
      rcases state with hs | ⟨hs, -⟩
      · refine Or.inr (Use.reflects_iff.mpr (Or.inr (Or.inr ⟨hs, ?_, ?_⟩)))
        · rintro ⟨kd, hpos⟩
          exact absurd (unused.1 kd) (Int.ne_of_gt hpos)
        · rw [unused.2.1]
          exact Int.lt_irrefl 0
      · exact Or.inl hs
  | @dropped o j env _ _ _ core =>
      refine absurd ?_ hnew
      have hlt := hk.1
      rw [core, Core.length_dropRef, (Core.adjusted_letGo o w.core j).length] at hlt
      exact hlt

/-- In a run without the three operations. -/
theorem tells_reach {cfg : RuntimeConfig} {plat : RuntimeImpl.Platform}
    (h : Reach World.next (fun v op => ∀ k, ¬ v.Blurs op k) (World.init cfg plat) w) :
    ∀ k, w.core.Alive k → (w.core.control k).use.state = .imported ∨
      (w.core.control k).use.Reflects := by
  refine h.invariant_of (K := fun w => w.InOrder ∧ w.RefInv [])
    (I := fun w => ∀ k, w.core.Alive k → (w.core.control k).use.state = .imported ∨
      (w.core.control k).use.Reflects) (fun v hv => inOrder_reach hv) ?_ ?_
  · exact fun k hk => absurd hk.1 (Nat.not_lt_zero _)
  · rintro v op ⟨horder, hinv⟩ htells hclear k hk'
    by_cases hlt : k < v.core.ctls.length
    · have hk : v.core.Alive k := by
        refine ⟨hlt, Bool.eq_false_iff.mpr fun hdone => ?_⟩
        exact absurd (hk'.2.symm.trans (((hinv.ages op).same k hlt).finalized hdone)) nofun
      exact horder.keeps hinv Use.closed_imported hk hk' (hclear k) (htells k hk)
    · exact hinv.tells_new hk' hlt

end World

/-- **What the state of a buffer tells.** In every reachable state a registered buffer that is
`IN_USE` has a lease, one that is `MAPPED` has a map, one with neither is `ALLOCATED` (or was
imported), and only an imported buffer is `IMPORTED`. The state tells leases and maps exactly until
an operation of `Blurs`: a step keeps that if and only if it is none of them, and in a run without
them it holds of every buffer that is not in the state `IMPORTED`. -/
theorem state_tells_use {cfg : RuntimeConfig} {plat : RuntimeImpl.Platform} {w : World}
    (hreach : Reach World.next (fun _ _ => True) (World.init cfg plat) w) :
    (∀ k, w.core.Registered k →
      ((w.core.control k).record.state = .inUse → w.Leased k) ∧
      ((w.core.control k).record.state = .mapped → 0 < w.maps k) ∧
      (¬ w.Leased k → ¬ 0 < w.maps k → (w.core.control k).record.state = .allocated ∨
        (w.core.control k).record.state = .imported) ∧
      ((w.core.control k).record.state = .imported →
        (w.core.control k).record.ownership = .imported)) ∧
    (∀ op k, w.core.Registered k → (w.next op).core.Registered k → w.Reflects k →
      ((w.next op).Reflects k ↔ ¬ w.Blurs op k)) ∧
    (Reach World.next (fun v op => ∀ k, ¬ v.Blurs op k) (World.init cfg plat) w →
      ∀ k, w.core.Registered k → (w.core.control k).record.state ≠ .imported → w.Reflects k) := by
  obtain ⟨horder, hinv⟩ := World.inOrder_reach hreach
  refine ⟨fun k hreg => ?_, fun op k hreg hreg' hr => ?_, fun hclear k hreg himported => ?_⟩
  · have hk := (hinv.registered_iff_alive k).mp hreg
    have hu := horder.alive k hk
    refine ⟨fun hs => (horder.leased_iff hk.1).mp (hu.inUse hs), fun hs => ?_, fun hl hm => ?_,
      hu.imported⟩
    · have hpos := hu.mapped hs
      rw [hinv.maps_eq hk.1, Int.natCast_pos] at hpos
      exact hpos
    · rw [← horder.leased_iff hk.1] at hl
      refine hu.unused (fun kd => ?_) ?_
      · exact Int.le_antisymm (Int.not_lt.mp fun hpos => hl ⟨kd, hpos⟩) (hu.leases kd)
      · rw [hinv.maps_eq hk.1]
        omega
  · have hk := (hinv.registered_iff_alive k).mp hreg
    have hk' := ((hinv.next op).registered_iff_alive k).mp hreg'
    rw [← horder.reflects_iff hinv hk.1] at hr
    rw [← (horder.step hinv op).2.2.1.reflects_iff (hinv.next op) hk'.1]
    exact ⟨fun hr' hb => horder.blurs hinv hk hk' hr hb hr', fun hb =>
      horder.keeps hinv Use.closed_reflects hk hk' hb hr⟩
  · have hk := (hinv.registered_iff_alive k).mp hreg
    rw [← horder.reflects_iff hinv hk.1]
    exact (World.tells_reach hclear k hk).resolve_left himported

def mappedPage : World :=
  runs World.next (World.init {} {}) [.allocate (.findsAt 4096) { size := 4096 }, .map {} 0 .read]

/-- The theorem at work: the state tells the map. -/
theorem state_tells_use_mappedPage : mappedPage.maps 0 = 1 ∧ mappedPage.Reflects 0 := by
  have hclear : Reach World.next (fun v op => ∀ k, ¬ v.Blurs op k) (World.init {} {}) mappedPage := by
    refine .next _ (.next _ .start ?_) ?_ <;> rintro k (⟨hop⟩ | ⟨hdrop⟩ | hmoves)
    all_goals first | cases hop | cases hdrop | cases hmoves
  have htells := (state_tells_use (hclear.mono fun _ _ _ => trivial)).2.2 hclear 0
    ⟨_, show mappedPage.core.rt.registry.find? (mappedPage.core.control 0).record.id = some 0 by
      decide⟩ (by decide)
  exact ⟨by decide, htells⟩

/-- A page that is mapped and then read under a lease. -/
def readMapped : World := mappedPage.next (.acquire .read 0)

/-- A page whose last lease was released while it is mapped. -/
def lastOverMap : World :=
  runs World.next (World.init {} {})
    [.allocate (.findsAt 4096) { size := 4096 }, .acquire .write 0, .map {} 0 .read, .release {} 1]

/-- Both pages are registered, and their states do not tell their use: there is a lease on a
`MAPPED` buffer, a map of an `ALLOCATED` one. -/
theorem state_hides_use :
    (readMapped.core.Registered 0 ∧ (readMapped.core.control 0).record.state = .mapped ∧
      readMapped.Leased 0 ∧ ¬ readMapped.Reflects 0) ∧
    (lastOverMap.core.Registered 0 ∧ (lastOverMap.core.control 0).record.state = .allocated ∧
      lastOverMap.maps 0 = 1 ∧ ¬ lastOverMap.Reflects 0) := by
  have hleased : readMapped.Leased 0 := ⟨.read, by decide⟩
  have hfree : ¬ lastOverMap.Leased 0 := by
    rintro ⟨kind, hpos⟩
    cases kind <;> exact absurd hpos (by decide)
  refine ⟨⟨⟨(readMapped.core.control 0).record.id, by decide⟩, by decide, hleased, fun h => ?_⟩,
    ⟨(lastOverMap.core.control 0).record.id, by decide⟩, by decide, by decide, fun h => ?_⟩
  · exact absurd (h.inUse.mpr hleased) (by decide)
  · exact absurd ((h.mapped hfree).mpr (by decide)) (by decide)

end UnifiedBuffer
