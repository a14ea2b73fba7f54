import UnifiedBuffer.Safety.Effects

set_option autoImplicit false

/-! # The setup of a runtime

The configuration and the address of a runtime are those that it was made with. Its backends are
the same until it is closed. -/

namespace UnifiedBuffer

open Lib

/-- The configuration and the address of the runtime are the same, and so are the backends, as long
as the runtime is open. -/
structure Core.SameSetup (c c' : Core) : Prop where
  cfg : c'.rt.cfg = c.rt.cfg
  address : c'.rt.address = c.rt.address
  stillOpen : c'.rt.closed = false → c.rt.closed = false ∧ c'.rt.domains = c.rt.domains

namespace Core

variable {c c' c'' : Core}

theorem SameSetup.refl (c : Core) : c.SameSetup c := ⟨rfl, rfl, fun hopen => ⟨hopen, rfl⟩⟩

/-- A step that touches neither the configuration nor the backends. -/
theorem SameSetup.step (h : c.SameSetup c') (hcfg : c''.rt.cfg = c'.rt.cfg)
    (haddress : c''.rt.address = c'.rt.address) (hdomains : c''.rt.domains = c'.rt.domains)
    (hclosed : c''.rt.closed = c'.rt.closed) : c.SameSetup c'' :=
  ⟨hcfg.trans h.cfg, haddress.trans h.address,
    fun hopen => (h.stillOpen (hclosed ▸ hopen)).imp_right hdomains.trans⟩

theorem SameSetup.trans (h : c.SameSetup c') (h' : c'.SameSetup c'') : c.SameSetup c'' := by
  refine ⟨h'.cfg.trans h.cfg, h'.address.trans h.address, fun hopen => ?_⟩
  obtain ⟨hopen', hdomains⟩ := h'.stillOpen hopen
  exact (h.stillOpen hopen').imp_right hdomains.trans

theorem SameSetup.booked (h : c.SameSetup c') (hb : c'.Booked c'') : c.SameSetup c'' :=
  h.step hb.cfg hb.address hb.domains hb.closed

theorem SameSetup.brought (h : c.SameSetup c') {P : Record → Prop}
    {out : Except Error CtlId × Core} (hb : c'.Brings P out) : c.SameSetup out.2 := by
  cases hb with
  | failed booked | known booked => exact h.booked booked
  | fresh booked made => exact (h.booked booked).step rfl rfl rfl rfl

theorem SameSetup.allocate (h : c.SameSetup c') (env : Env) (req : AllocationRequest) :
    c.SameSetup (c'.allocate env req).2 := by
  have hrun := c'.rt.allocateRecord_run c'.os env req
  unfold Core.allocate
  generalize c'.rt.allocateRecord c'.os env req = out at hrun ⊢
  cases hrun with
  | refused _ _ state | backendFailed _ _ _ _ state | commitFailed _ _ _ _ _ state
  | freshZeroFailed _ _ _ _ _ _ state | fresh _ _ _ _ _ state | pooledZeroFailed _ _ _ state
  | pooled _ _ _ state => exact h.step state.cfg state.address state.domains state.closed

theorem SameSetup.migrate (h : c.SameSetup c') (env : Env) (k : CtlId) (target : MemoryDomain) :
    c.SameSetup (c'.migrate env k target).2 := by
  have hrun := c'.rt.migrate_run c'.os env (c'.control k) target
  unfold Core.migrate
  generalize c'.rt.migrate c'.os env (c'.control k) target = out at hrun ⊢
  cases hrun with
  | stays => exact h.step rfl rfl rfl rfl
  | refused _ state | backendFailed _ _ state | copyFailed _ _ _ state | commitFailed _ _ _ _ state
  | verifyFailed _ _ _ _ _ state | swapped _ _ _ _ _ state =>
      exact h.step state.cfg state.address state.domains state.closed

theorem SameSetup.finalize (h : c.SameSetup c') (env : Env) {k : CtlId}
    (halive : (c'.control k).finalized = false) : c.SameSetup (c'.finalize env k true) := by
  obtain ⟨_, _, _, _, -, hq⟩ := c'.rt.finalize_first c'.os env true halive
  exact h.step hq.cfg hq.address hq.domains hq.closed

theorem SameSetup.poolTrim (h : c.SameSetup c') : c.SameSetup c'.poolTrim := by
  have hrt : c'.poolTrim.rt = (c'.rt.poolTrim c'.os).1 := rfl
  refine h.step ?_ ?_ ?_ ?_ <;> rw [hrt, c'.rt.poolTrim_frame]

end Core

namespace World

variable {w : World} {op : Op} {base : List BufferId}

theorem sameSetup_effects (w : World) (op : Op) : w.Effects op (w.core.SameSetup ·) where
  noted hb h := h.booked hb.toBooked
  adjusted _ _ _ h := h.step rfl rfl rfl rfl
  allocate env req _ := (Core.SameSetup.refl _).allocate env req
  wrapExternal desc _ := (Core.SameSetup.refl _).brought (w.core.wrapExternal_brings desc)
  importBuffer env desc ns label _ :=
    (Core.SameSetup.refl _).brought (w.core.importDescriptor_brings env desc ns label)
  migrate env _ target k _ _ := (Core.SameSetup.refl _).migrate env k target
  copyTo env i dst dstOffset len _ := by
    have hidle := copyTo_idle (w.handle i) w.core env dst dstOffset len
    exact (Core.SameSetup.refl _).step hidle.quiet.cfg hidle.quiet.address hidle.quiet.domains
      hidle.quiet.closed
  copyFrom env i src srcOffset len _ := by
    have hidle := copyFrom_idle (w.handle i) w.core env src srcOffset len
    exact (Core.SameSetup.refl _).step hidle.quiet.cfg hidle.quiet.address hidle.quiet.domains
      hidle.quiet.closed
  finalize env k _ _ _ _ halive h := h.finalize env halive
  poolTrim _ := (Core.SameSetup.refl _).poolTrim
  shutdown env _ _ := by
    -- from here on the runtime is closed
    have hclosing := Core.SameSetup.refl { w.core with rt := { w.core.rt with closed := true } }
    refine ⟨hclosing.poolTrim.cfg, hclosing.poolTrim.address, fun hopen => ?_⟩
    have hclosed : (Core.closeDown
        { w.core with rt := { w.core.rt with closed := true } }).rt.closed = true := by
      show (RuntimeImpl.poolTrim { w.core.rt with closed := true } w.core.os).1.closed = true
      rw [RuntimeImpl.poolTrim_closed]
    rw [hclosed] at hopen
    cases hopen
  createNamespace _ _ := (Core.SameSetup.refl _).step rfl rfl rfl rfl

theorem RefInv.sameSetup_next (hinv : w.RefInv base) (op : Op) :
    w.core.SameSetup (w.next op).core :=
  (sameSetup_effects w op).next hinv (.refl _)

theorem RefInv.sameSetup_runs (hinv : w.RefInv base) (ops : List Op) :
    w.core.SameSetup (Lib.runs World.next w ops).core := by
  induction ops generalizing w with
  | nil => exact .refl _
  | cons op ops ih => exact (hinv.sameSetup_next op).trans (ih (hinv.next op))

end World

end UnifiedBuffer
