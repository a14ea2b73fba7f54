import UnifiedBuffer.Safety.Integrity

set_option autoImplicit false

/-! # The namespaces of buffers

Namespaces are only added, the default one by the constructor. A wrapped buffer belongs to the
default namespace, an imported one to a namespace that the import has looked up, and a migrated one
stays where it was. `allocate` looks nothing up: an id that no namespace has is taken as one without
quotas, and the buffer belongs to a namespace that does not exist. -/

namespace UnifiedBuffer

open Lib

/-! ## Namespaces are only added -/

namespace RuntimeImpl

def Registered (rt : RuntimeImpl) (ns : NamespaceId) : Prop := (rt.namespaceInfo ns).isSome

instance (rt : RuntimeImpl) (ns : NamespaceId) : Decidable (rt.Registered ns) :=
  inferInstanceAs (Decidable (_ = true))

theorem Registered.of_nss {rt rt' : RuntimeImpl} {ns : NamespaceId} (h : rt.Registered ns)
    (hnss : rt'.nss = rt.nss) : rt'.Registered ns := by
  unfold Registered namespaceInfo
  rw [hnss]
  exact h

theorem find?_addNamespace {nss : AssocMap NamespaceId NamespaceConfig} (nsc : NamespaceConfig)
    {ns : NamespaceId} (h : (nss.find? ns).isSome) : ((addNamespace nss nsc).find? ns).isSome := by
  unfold addNamespace
  rw [AssocMap.find?_insert]
  split
  · rfl
  · exact h

theorem Registered.createNamespace {rt : RuntimeImpl} {ns : NamespaceId} (h : rt.Registered ns)
    (nsc : NamespaceConfig) : (rt.createNamespace nsc).Registered ns :=
  find?_addNamespace nsc h

theorem registered_default (cfg : RuntimeConfig) (plat : Platform) :
    (init cfg plat).Registered kDefaultNamespace := by
  -- the configured namespaces are added to a table that has the default one
  have hfold : ∀ (nscs : List NamespaceConfig) (nss : AssocMap NamespaceId NamespaceConfig),
      (nss.find? kDefaultNamespace).isSome →
        ((nscs.foldl addNamespace nss).find? kDefaultNamespace).isSome := by
    intro nscs
    induction nscs with
    | nil => exact fun _ h => h
    | cons nsc nscs ih => exact fun nss h => ih _ (find?_addNamespace nsc h)
  exact hfold cfg.namespaces _ rfl

end RuntimeImpl

theorem Core.allocate_nss (c : Core) (env : Env) (req : AllocationRequest) :
    (c.allocate env req).2.rt.nss = c.rt.nss := by
  have hrun := c.rt.allocateRecord_run c.os env req
  unfold Core.allocate
  generalize c.rt.allocateRecord c.os env req = out at hrun ⊢
  cases hrun with
  | refused _ _ state | backendFailed _ _ _ _ state | commitFailed _ _ _ _ _ state
  | freshZeroFailed _ _ _ _ _ _ state | fresh _ _ _ _ _ state | pooledZeroFailed _ _ _ state
  | pooled _ _ _ state => exact state.nss

theorem Core.Brings.registered {c : Core} {P : Record → Prop} {p : Except Error CtlId × Core}
    (hp : c.Brings P p) {ns : NamespaceId} (h : c.rt.Registered ns) : p.2.rt.Registered ns := by
  cases hp with
  | failed booked | known booked | fresh booked => exact h.of_nss booked.nss

namespace World

variable {w : World} {op : Op} {base : List BufferId}

/-- A namespace that exists before an operation exists throughout it. -/
theorem registered_effects {ns : NamespaceId} (w : World) (op : Op)
    (h : w.core.rt.Registered ns) : w.Effects op (fun c => c.rt.Registered ns) where
  noted hb h := h.of_nss hb.nss
  adjusted _ _ _ h := h
  allocate env req _ := h.of_nss (w.core.allocate_nss env req)
  wrapExternal desc _ := (w.core.wrapExternal_brings desc).registered h
  importBuffer env desc ns label _ :=
    (w.core.importDescriptor_brings env desc ns label).registered h
  migrate env _ target k _ _ := by
    have hrun := w.core.rt.migrate_run w.core.os env (w.core.control k) target
    unfold Core.migrate
    generalize w.core.rt.migrate w.core.os env (w.core.control k) target = out at hrun ⊢
    cases hrun with
    | stays => exact h
    | refused _ state | backendFailed _ _ state | copyFailed _ _ _ state
    | commitFailed _ _ _ _ state | verifyFailed _ _ _ _ _ state | swapped _ _ _ _ _ state =>
        exact h.of_nss state.nss
  copyTo env i dst dstOffset len _ :=
    h.of_nss (copyTo_idle (w.handle i) w.core env dst dstOffset len).quiet.nss
  copyFrom env i src srcOffset len _ :=
    h.of_nss (copyFrom_idle (w.handle i) w.core env src srcOffset len).quiet.nss
  finalize env k _ _ _ _ halive h := by
    obtain ⟨_, _, _, _, -, hq⟩ := RuntimeImpl.finalize_first _ _ env true halive
    exact h.of_nss hq.nss
  poolTrim _ := by
    refine h.of_nss ?_
    show (w.core.rt.poolTrim w.core.os).1.nss = _
    rw [w.core.rt.poolTrim_frame]
  shutdown env _ _ := by
    refine h.of_nss ?_
    show (RuntimeImpl.poolTrim { w.core.rt with closed := true } w.core.os).1.nss = _
    rw [RuntimeImpl.poolTrim_frame]
  createNamespace nsc _ := h.createNamespace nsc

theorem registered_next (hinv : w.RefInv base) (op : Op) {ns : NamespaceId}
    (h : w.core.rt.Registered ns) : (w.next op).core.rt.Registered ns :=
  (registered_effects w op h).next hinv h

end World

/-! ## The namespace of a new buffer -/

/-- An import into a namespace that does not exist is refused before anything happens. -/
theorem Core.importDescriptor_unknown {c : Core} {env : Env} {desc : ExportDescriptor}
    {ns : NamespaceId} {label : String} (h : ¬ c.rt.Registered ns) :
    ∃ e, c.importDescriptor env desc ns label = (.error e, c) := by
  have hnone : c.rt.namespaceInfo ns = none := Option.not_isSome_iff_eq_none.mp h
  have hcheck : ∃ e, c.checkImport desc ns = .error e := by
    unfold Core.checkImport
    simp only [hnone]
    repeat' split
    all_goals exact ⟨_, rfl⟩
  obtain ⟨e, he⟩ := hcheck
  unfold Core.importDescriptor
  split
  · exact ⟨_, rfl⟩
  · exact ⟨e, by rw [he]⟩

/-- Every live buffer belongs to a namespace that exists. -/
def Core.Housed (c : Core) : Prop := ∀ k, c.Alive k → c.rt.Registered (c.control k).record.ns

namespace World

variable {w : World} {op : Op} {base : List BufferId}

/-- The operation does not allocate in a namespace that does not exist. -/
def NamesNamespace (w : World) : Op → Prop
  | .allocate _ req => w.core.rt.Registered req.ns
  | _ => True

/-- An allocation that fails registers nothing. -/
theorem allocate_failed {env : Env} {req : AllocationRequest}
    (hfail : (w.step (.allocate env req)).1.isOk = false) :
    ¬ (w.next (.allocate env req)).core.Alive w.core.ctls.length := by
  rw [allocate_isOk] at hfail
  show ¬ (w.allocate env req).2.core.Alive w.core.ctls.length
  unfold World.allocate
  split
  · exact fun halive => Nat.lt_irrefl _ halive.1
  · refine giveHandle_not_new ?_
    unfold Core.allocate
    generalize w.core.rt.allocateRecord w.core.os env req = out at hfail ⊢
    obtain ⟨res, rt, os⟩ := out
    cases res with
    | error e => rfl
    | ok r => cases hfail

/-- A buffer of a namespace that did not exist before the operation was allocated in it. -/
theorem housed_or_allocated (hinv : w.RefInv base)
    (hdefault : w.core.rt.Registered kDefaultNamespace) (h : w.core.Housed) {k : CtlId}
    (hk : (w.next op).core.Alive k) :
    w.core.rt.Registered ((w.next op).core.control k).record.ns ∨
      ∃ env req, op = .allocate env req ∧ ((w.next op).core.control k).record.ns = req.ns ∧
        (w.step op).1.isOk = true := by
  cases (fates hinv op).blocks k hk with
  | kept alive same =>
      rw [same]
      exact Or.inl (h k alive)
  | moved _ valid _ _ _ same =>
      rw [same]
      exact Or.inl (h k (hinv.alive (handle_alive hinv valid).1))
  | fresh hop new _ _ _ _ same | reused hop new _ _ _ same =>
      subst hop new
      refine Or.inr ⟨_, _, rfl, by rw [same]; rfl, ?_⟩
      exact Bool.eq_true_of_not_eq_false fun hfail => allocate_failed hfail hk
  | wrapped _ _ made same =>
      obtain ⟨-, -, dom, id, rfl⟩ := made
      rw [same]
      exact Or.inl hdefault
  | opened hop new made same =>
      subst hop new
      obtain ⟨-, id, a, -, -, rfl⟩ := made
      rw [same]
      -- an import that was refused has registered nothing
      refine Or.inl (by_contra fun hnone => ?_)
      obtain ⟨e, he⟩ := Core.importDescriptor_unknown hnone
      exact giveHandle_not_new (congrArg (·.2.ctls) he) hk

theorem allocate_nss (w : World) (env : Env) (req : AllocationRequest) :
    (w.next (.allocate env req)).core.rt.nss = w.core.rt.nss := by
  have hnss := w.core.allocate_nss env req
  show (w.allocate env req).2.core.rt.nss = _
  unfold World.allocate World.giveHandle
  generalize w.core.allocate env req = out at hnss ⊢
  obtain ⟨res, c⟩ := out
  split
  · rfl
  · cases res <;> exact hnss

/-- The buffer of a successful allocation belongs to the namespace of the request. -/
theorem allocate_ns {env : Env} {req : AllocationRequest}
    (hok : (w.step (.allocate env req)).1.isOk = true) :
    (w.next (.allocate env req)).core.Alive w.core.ctls.length ∧
      ((w.next (.allocate env req)).core.control w.core.ctls.length).record.ns = req.ns := by
  obtain ⟨halive, rt, os, hmade⟩ := allocate_made hok
  refine ⟨halive, ?_⟩
  have hrun := w.core.rt.allocateRecord_run w.core.os env req
  generalize ((w.next (.allocate env req)).core.control w.core.ctls.length).record = r at hmade ⊢
  rw [hmade] at hrun
  cases hrun with
  | fresh | pooled => rfl

/-- One step keeps the law exactly if it does not succeed to allocate in a namespace that does not
exist. -/
theorem housed_next_iff (hinv : w.RefInv base)
    (hdefault : w.core.rt.Registered kDefaultNamespace) (h : w.core.Housed) (op : Op) :
    (w.next op).core.Housed ↔ w.NamesNamespace op ∨ (w.step op).1.isOk = false := by
  constructor
  · intro hnext
    cases op with
    | allocate env req =>
        refine (Decidable.em (w.core.rt.Registered req.ns)).imp_right fun hnone => ?_
        refine Bool.eq_false_iff.mpr fun hok => hnone ?_
        obtain ⟨halive, hns⟩ := allocate_ns hok
        have hreg := hnext _ halive
        rw [hns] at hreg
        exact hreg.of_nss (w.allocate_nss env req).symm
    | _ => exact Or.inl trivial
  · intro hcond k hk
    refine registered_next hinv op ?_
    rcases housed_or_allocated hinv hdefault h hk with hold | ⟨env, req, rfl, hns, hok⟩
    · exact hold
    · rcases hcond with hnamed | hfail
      · exact hns ▸ hnamed
      · exact absurd hok (Bool.eq_false_iff.mp hfail)

theorem housed_reach {cfg : RuntimeConfig} {plat : RuntimeImpl.Platform}
    (hreach : Reach World.next World.NamesNamespace (World.init cfg plat) w) :
    w.core.rt.Registered kDefaultNamespace ∧ w.core.Housed := by
  refine hreach.invariant_of
    (I := fun w => w.core.rt.Registered kDefaultNamespace ∧ w.core.Housed)
    (K := fun w => w.RefInv []) (fun _ h => refInv_reach h) ?_ (fun v op hinv h hok => ?_)
  · exact ⟨RuntimeImpl.registered_default cfg plat, fun k hk => absurd hk.1 (Nat.not_lt_zero k)⟩
  · exact ⟨registered_next hinv op h.1, (housed_next_iff hinv h.1 h.2 op).mpr (Or.inl hok)⟩

end World

/-- **Namespaces of buffers.** In every run whose allocations name namespaces that exist, every live
buffer belongs to such a namespace. The next operation keeps this exactly if it does not succeed to
allocate in another one; an import into one that does not exist always fails and changes nothing. -/
theorem live_buffers_housed {cfg : RuntimeConfig} {plat : RuntimeImpl.Platform} {w : World}
    (hreach : Reach World.next World.NamesNamespace (World.init cfg plat) w) :
    (∀ k, w.core.Alive k → (w.core.rt.namespaceInfo (w.core.control k).record.ns).isSome) ∧
      (∀ op, (∀ k, (w.next op).core.Alive k →
        ((w.next op).core.rt.namespaceInfo ((w.next op).core.control k).record.ns).isSome) ↔
          w.NamesNamespace op ∨ (w.step op).1.isOk = false) ∧
      ∀ env desc ns label, w.core.rt.namespaceInfo ns = none →
        ∃ e, w.core.importDescriptor env desc ns label = (.error e, w.core) := by
  obtain ⟨hdefault, hhoused⟩ := World.housed_reach hreach
  refine ⟨hhoused, World.housed_next_iff (World.refInv_reach hreach) hdefault hhoused, ?_⟩
  exact fun env desc ns label hnone =>
    Core.importDescriptor_unknown (Option.not_isSome_iff_eq_none.mpr hnone)

def secondTenant : World :=
  runs World.next (World.init {} {})
    [.createNamespace { name := "tenant" }, .allocate (.findsAt 4096) { size := 4096, ns := 2 }]

/-- The theorem at work: the page is in the second namespace, which exists; an allocation in a third
one would succeed and break the law. -/
theorem live_buffers_housed_secondTenant :
    (secondTenant.core.control 0).record.ns = 2 ∧
      (secondTenant.core.rt.namespaceInfo (secondTenant.core.control 0).record.ns).isSome ∧
      ¬ (secondTenant.next (.allocate (.findsAt 8192) { size := 4096, ns := 3 })).core.Housed := by
  have hreach : Reach World.next World.NamesNamespace (World.init {} {}) secondTenant :=
    reach_runs .start ⟨trivial, show RuntimeImpl.Registered _ 2 by decide, trivial⟩
  have h := live_buffers_housed hreach
  refine ⟨by decide, h.1 0 ⟨by decide, by decide⟩, fun hall => ?_⟩
  rcases (h.2.1 (.allocate (.findsAt 8192) { size := 4096, ns := 3 })).mp hall with hnamed | hfail
  · exact absurd (show RuntimeImpl.Registered _ 3 from hnamed) (by decide)
  · exact absurd hfail (by decide)

/-- `allocate` in a namespace that does not exist succeeds, where every import is refused. -/
theorem allocate_unknown_namespace :
    let w := (World.init {} {}).next (.allocate (.findsAt 4096) { size := 4096, ns := 5 })
    w.core.Alive 0 ∧ w.core.rt.namespaceInfo (w.core.control 0).record.ns = none ∧
      ∀ env desc label, ∃ e, w.core.importDescriptor env desc 5 label = (.error e, w.core) :=
  ⟨⟨by decide, by decide⟩, by decide, fun _ _ _ => Core.importDescriptor_unknown (by decide)⟩

end UnifiedBuffer
