import UnifiedBuffer.Runtime.State

set_option autoImplicit false

/-! # Migration

`migrate` of `runtime.cpp`: give a buffer a backing in another domain. The target bytes are
reserved, allocated, copied, committed and verified, in this order, and only then the record is
bound to the new backing and the old one is freed. -/

namespace UnifiedBuffer

open Lib

namespace RuntimeImpl

/-- The bytes that a migration reserves and allocates. -/
def migrateSize (r : Record) : UInt64 := if r.committed ≠ 0 then r.committed else r.size

/-- The device of a buffer that moves to `target`. -/
def migrateDevice (rt : RuntimeImpl) (tdom : IDomain) (target : MemoryDomain) : DeviceId :=
  if target = .device then ⟨.cuda, if rt.deviceCuda ≥ 0 then rt.deviceCuda else 0⟩
  else ⟨tdom.backend, -1⟩

/-- The record bound to its new backing. -/
def rebind (rt : RuntimeImpl) (tdom : IDomain) (target : MemoryDomain) (r : Record)
    (newbacking : NativeAllocation) : Record :=
  let r := { r with
    backing := newbacking
    domain := target
    backend := tdom.backend
    device := rt.migrateDevice tdom target
    committed := newbacking.committed
    pooled := false
    poolEligible := false
    generation := r.generation + 1
    state := .allocated }
  { r with metaCrc := metaCrcOf r }

/-- "Swap binding" and "release the old authority". -/
def swapBinding (rt : RuntimeImpl) (os : Os) (ctl : Control) (tdom : IDomain)
    (target : MemoryDomain) (newbacking : NativeAllocation) : Control × RuntimeImpl × Os :=
  let old := ctl.record
  let r := rt.rebind tdom target old newbacking
  let os := if old.backing.present then rt.freeIn os old.domain old.backing else os
  let rt :=
    if old.backing.present then rt.freeAccounting r.ns old.domain old.committed else rt
  let rt := rt.count (fun t => { t with migrationCount := t.migrationCount + 1 })
  let rt := rt.note "migrate" (old.domain.toString ++ " -> " ++ target.toString
    ++ " id=" ++ toString r.id.lo)
  ({ ctl with record := r }, rt, os)

/-- The tail of `migrate`, from the copy on. -/
def migrateInto (rt : RuntimeImpl) (os : Os) (env : Env) (ctl : Control) (tdom : IDomain)
    (target : MemoryDomain) (classSize : UInt64) (newbacking : NativeAllocation) :
    Except Error Unit × Control × RuntimeImpl × Os :=
  let r := ctl.record
  let len := min r.committed newbacking.committed
  match os.copyMemory env newbacking.base r.backing.base len (target = .device)
      (r.domain = .device) with
  | (.error e, os) =>
      (.error e.passOn, ctl, rt.unreserveAmount r.ns target classSize, os.free target newbacking)
  | (.ok _, os) =>
      match rt.commitAmount r.ns target newbacking.committed with
      | (.error e, rt) =>
          (.error e.passOn, ctl, rt.unreserveAmount r.ns target classSize,
            os.free target newbacking)
      | (.ok _, rt) =>
          -- Verify destination before discarding the source.
          match env.verify target newbacking newbacking.committed with
          | .error e =>
              -- the bytes are read after the free, which has reset them
              let committed := (env.afterFree target newbacking).committed
              let rt := if target ≠ .device then rt.freeAccounting r.ns target committed else rt
              (.error e.passOn, ctl, rt.unreserveAmount r.ns target classSize,
                os.free target newbacking)
          | .ok _ =>
              let (ctl, rt, os) := rt.swapBinding os ctl tdom target newbacking
              (.ok (), ctl, rt, os)

def migrate (rt : RuntimeImpl) (os : Os) (env : Env) (ctl : Control) (target : MemoryDomain) :
    Except Error Unit × Control × RuntimeImpl × Os :=
  let r := ctl.record
  if rt.closed then (.error ⟨.closed, "runtime is closed"⟩, ctl, rt, os)
  -- the state of a buffer that is in the target domain is not looked at
  else if r.domain = target then (.ok (), ctl, rt, os)
  else if r.state = .released ∨ r.state = .invalid then
    (.error ⟨.lifecycleViolation, "migrate: buffer released"⟩, ctl, rt, os)
  else if ctl.writeLeases > 0 ∨ ctl.exclusiveLeases > 0 then
    (.error ⟨.leaseConflict, "migrate: active write/exclusive lease"⟩, ctl,
      rt.count (fun t => { t with leaseConflicts := t.leaseConflicts + 1 }), os)
  else
    match rt.domain target with
    | none =>
        (.error ⟨.unsupportedDomain, "migrate: target domain " ++ target.toString ++ " disabled"⟩,
          ctl, rt, os)
    | some tdom =>
        let classSize := migrateSize r
        match rt.reserveAmount r.ns target classSize with
        | (.error e, rt) => (.error e.passOn, ctl, rt, os)
        | (.ok _, rt) =>
            match os.allocate env target r.ownership classSize r.alignment with
            | (.error e, os) =>
                (.error e.passOn, ctl, rt.unreserveAmount r.ns target classSize, os)
            | (.ok newbacking, os) =>
                rt.migrateInto os env ctl tdom target classSize newbacking

/-! ## What a migration does -/

/-- The migration gets past the checks and the reservation: the target backend and the ledger
with the reservation. -/
def migrateAdmit (rt : RuntimeImpl) (ctl : Control) (target : MemoryDomain) :
    Option (IDomain × Ledger) :=
  if rt.closed = true ∨ ctl.record.domain = target
      ∨ (ctl.record.state = .released ∨ ctl.record.state = .invalid)
      ∨ (ctl.writeLeases > 0 ∨ ctl.exclusiveLeases > 0) then none
  else
    match rt.domain target with
    | none => none
    | some tdom =>
        match rt.ledger.reserveAmount (rt.capFor target) (rt.domainQuota ctl.record.ns target)
            ctl.record.ns target (migrateSize ctl.record) with
        | .error _ => none
        | .ok l => some (tdom, l)

/-- The copy into the new backing `a`. -/
def migrateCopy (os : Os) (env : Env) (ctl : Control) (target : MemoryDomain)
    (a : NativeAllocation) : Except Error Unit × Os :=
  (os.log (.allocated target ctl.record.ownership (os.stamp a))).copyMemory env (os.stamp a).base
    ctl.record.backing.base (min ctl.record.committed a.committed) (target = .device)
    (ctl.record.domain = .device)

/-- The accounting of a failed verification, which undoes the commit of `a`: not for a device,
and with the bytes that are left in `a` after its free. -/
def undoCommit (env : Env) (target : MemoryDomain) (a : NativeAllocation) (ns : NamespaceId)
    (l : Ledger) : Ledger :=
  if target ≠ .device then l.freeAccounting ns target (env.afterFree target a).committed else l

def releaseOld (r : Record) (l : Ledger) : Ledger :=
  if r.backing.present then l.freeAccounting r.ns r.domain r.committed else l

/-- The exits of `migrate`. -/
inductive MigrateRun (rt : RuntimeImpl) (os : Os) (env : Env) (ctl : Control)
    (target : MemoryDomain) : Except Error Unit × Control × RuntimeImpl × Os → Prop
  /-- a check or the reservation refuses the migration -/
  | refused {e : Error} {rt' : RuntimeImpl} (admission : rt.migrateAdmit ctl target = none)
      (state : Quiet rt rt') : MigrateRun rt os env ctl target (.error e, ctl, rt', os)
  /-- the buffer is in the target domain already -/
  | stays (admission : rt.migrateAdmit ctl target = none) (same : ctl.record.domain = target) :
      MigrateRun rt os env ctl target (.ok (), ctl, rt, os)
  /-- the target backend has no memory -/
  | backendFailed {e e' : Error} {rt' : RuntimeImpl} {tdom : IDomain} {l : Ledger}
      (admission : rt.migrateAdmit ctl target = some (tdom, l))
      (backend : env.allocate target (migrateSize ctl.record) ctl.record.alignment = .error e')
      (state : Quiet { rt with
        ledger := l.unreserveAmount ctl.record.ns target (migrateSize ctl.record) } rt') :
      MigrateRun rt os env ctl target (.error e, ctl, rt', os)
  /-- the copy fails -/
  | copyFailed {e e' : Error} {rt' : RuntimeImpl} {tdom : IDomain} {l : Ledger}
      {a : NativeAllocation} (admission : rt.migrateAdmit ctl target = some (tdom, l))
      (backend : env.allocate target (migrateSize ctl.record) ctl.record.alignment = .ok a)
      (copy : (migrateCopy os env ctl target a).1 = .error e')
      (state : Quiet { rt with
        ledger := l.unreserveAmount ctl.record.ns target (migrateSize ctl.record) } rt') :
      MigrateRun rt os env ctl target
        (.error e, ctl, rt', (migrateCopy os env ctl target a).2.free target (os.stamp a))
  /-- the backend committed more than is reserved -/
  | commitFailed {e : Error} {rt' : RuntimeImpl} {tdom : IDomain} {l : Ledger}
      {a : NativeAllocation} (admission : rt.migrateAdmit ctl target = some (tdom, l))
      (backend : env.allocate target (migrateSize ctl.record) ctl.record.alignment = .ok a)
      (copy : (migrateCopy os env ctl target a).1 = .ok ())
      (commit : l.reserved.get ctl.record.ns target < a.committed)
      (state : Quiet { rt with
        ledger := l.unreserveAmount ctl.record.ns target (migrateSize ctl.record) } rt') :
      MigrateRun rt os env ctl target
        (.error e, ctl, rt', (migrateCopy os env ctl target a).2.free target (os.stamp a))
  /-- the verification of the new backing fails -/
  | verifyFailed {e e' : Error} {rt' : RuntimeImpl} {tdom : IDomain} {l l' : Ledger}
      {a : NativeAllocation} (admission : rt.migrateAdmit ctl target = some (tdom, l))
      (backend : env.allocate target (migrateSize ctl.record) ctl.record.alignment = .ok a)
      (copy : (migrateCopy os env ctl target a).1 = .ok ())
      (commit : l.commitAmount ctl.record.ns target a.committed = .ok l')
      (verify : env.verify target (os.stamp a) a.committed = .error e')
      (state : Quiet { rt with
        ledger := (undoCommit env target (os.stamp a) ctl.record.ns l').unreserveAmount
          ctl.record.ns target (migrateSize ctl.record) } rt') :
      MigrateRun rt os env ctl target
        (.error e, ctl, rt', (migrateCopy os env ctl target a).2.free target (os.stamp a))
  /-- the record is bound to the new backing -/
  | swapped {rt' : RuntimeImpl} {tdom : IDomain} {l l' : Ledger}
      {a : NativeAllocation} (admission : rt.migrateAdmit ctl target = some (tdom, l))
      (backend : env.allocate target (migrateSize ctl.record) ctl.record.alignment = .ok a)
      (copy : (migrateCopy os env ctl target a).1 = .ok ())
      (commit : l.commitAmount ctl.record.ns target a.committed = .ok l')
      (verify : env.verify target (os.stamp a) a.committed = .ok ())
      (state : Quiet { rt with ledger := releaseOld ctl.record l' } rt') :
      MigrateRun rt os env ctl target
        (.ok (), { ctl with record := rt.rebind tdom target ctl.record (os.stamp a) }, rt',
          if ctl.record.backing.present then
            rt.freeIn (migrateCopy os env ctl target a).2 ctl.record.domain ctl.record.backing
          else (migrateCopy os env ctl target a).2)

/-- The reservation of an admitted migration. -/
theorem migrateAdmit_reserve {rt : RuntimeImpl} {ctl : Control} {target : MemoryDomain}
    {tdom : IDomain} {l : Ledger} (h : rt.migrateAdmit ctl target = some (tdom, l)) :
    rt.ledger.reserveAmount (rt.capFor target) (rt.domainQuota ctl.record.ns target)
      ctl.record.ns target (migrateSize ctl.record) = .ok l := by
  unfold migrateAdmit at h
  split at h
  · cases h
  · split at h
    · cases h
    · split at h
      · cases h
      · rename_i hr
        cases h
        exact hr

/-- An admitted migration leads to another domain. -/
theorem migrateAdmit_ne {rt : RuntimeImpl} {ctl : Control} {target : MemoryDomain}
    {q : IDomain × Ledger} (h : rt.migrateAdmit ctl target = some q) :
    ctl.record.domain ≠ target := by
  intro hsame
  rw [migrateAdmit, if_pos (Or.inr (Or.inl hsame))] at h
  cases h

/-- A migration that is not admitted ends before a backend is asked. -/
theorem migrate_refused {rt : RuntimeImpl} {ctl : Control} {target : MemoryDomain}
    (h : rt.migrateAdmit ctl target = none) :
    ∃ res rt', ∀ os env, rt.migrate os env ctl target = (res, ctl, rt', os) := by
  unfold migrateAdmit at h
  unfold migrate
  simp only
  by_cases h₁ : rt.closed = true
  · exact ⟨_, _, fun _ _ => if_pos h₁⟩
  by_cases h₂ : ctl.record.domain = target
  · exact ⟨_, _, fun _ _ => by rw [if_neg h₁, if_pos h₂]⟩
  by_cases h₃ : ctl.record.state = .released ∨ ctl.record.state = .invalid
  · exact ⟨_, _, fun _ _ => by rw [if_neg h₁, if_neg h₂, if_pos h₃]⟩
  by_cases h₄ : ctl.writeLeases > 0 ∨ ctl.exclusiveLeases > 0
  · exact ⟨_, _, fun _ _ => by rw [if_neg h₁, if_neg h₂, if_neg h₃, if_pos h₄]⟩
  rw [if_neg (by tauto)] at h
  simp only [if_neg h₁, if_neg h₂, if_neg h₃, if_neg h₄]
  cases hd : rt.domain target with
  | none => exact ⟨_, _, fun _ _ => rfl⟩
  | some tdom =>
      rw [hd] at h
      simp only at h ⊢
      cases hr : rt.reserveAmount ctl.record.ns target (migrateSize ctl.record) with
      | mk res rt₁ =>
          rcases reserveAmount_cases hr with ⟨e, rfl, -, -⟩ | ⟨l, rfl, rfl, hl⟩
          · exact ⟨_, _, fun _ _ => rfl⟩
          · rw [hl] at h
            cases h

/-- What an admitted migration does once the backend has answered. -/
theorem migrate_admitted {rt : RuntimeImpl} {ctl : Control} {target : MemoryDomain}
    {tdom : IDomain} {l : Ledger} (h : rt.migrateAdmit ctl target = some (tdom, l)) (os : Os)
    (env : Env) :
    (∀ e, env.allocate target (migrateSize ctl.record) ctl.record.alignment = .error e →
      rt.migrate os env ctl target = (.error e.passOn, ctl,
        ({ rt with ledger := l } : RuntimeImpl).unreserveAmount ctl.record.ns target
          (migrateSize ctl.record), os)) ∧
    ∀ a, env.allocate target (migrateSize ctl.record) ctl.record.alignment = .ok a →
      rt.migrate os env ctl target = ({ rt with ledger := l } : RuntimeImpl).migrateInto
        (os.log (.allocated target ctl.record.ownership (os.stamp a))) env ctl tdom target
        (migrateSize ctl.record) (os.stamp a) := by
  have hreserve := migrateAdmit_reserve h
  unfold migrateAdmit at h
  split at h
  · cases h
  rename_i hchecks
  obtain ⟨h₁, h₂, h₃, h₄⟩ : ¬ rt.closed = true ∧ ¬ ctl.record.domain = target ∧
      ¬ (ctl.record.state = .released ∨ ctl.record.state = .invalid) ∧
      ¬ (ctl.writeLeases > 0 ∨ ctl.exclusiveLeases > 0) := by tauto
  split at h
  · cases h
  rename_i dom hd
  rw [hreserve] at h
  cases h
  have hreserved : rt.reserveAmount ctl.record.ns target (migrateSize ctl.record)
      = (.ok (), { rt with ledger := l }) := by
    unfold reserveAmount
    rw [hreserve]
  unfold migrate
  simp only [if_neg h₁, if_neg h₂, if_neg h₃, if_neg h₄, hd, hreserved, Os.allocate]
  exact ⟨fun e he => by rw [he], fun a ha => by rw [ha]⟩

@[simp] theorem migrateCopy_calls (os : Os) (env : Env) (ctl : Control) (target : MemoryDomain)
    (a : NativeAllocation) : (migrateCopy os env ctl target a).2.calls
      = .allocated target ctl.record.ownership (os.stamp a) :: os.calls :=
  Os.copyMemory_calls _ env _ _ _ _ _

section Run

variable {rt : RuntimeImpl} {os : Os} {env : Env} {ctl : Control} {target : MemoryDomain}
  {tdom : IDomain} {l : Ledger} {a : NativeAllocation}

theorem swapBinding_quiet (rt : RuntimeImpl) (os : Os) (ctl : Control) (tdom : IDomain)
    (target : MemoryDomain) (a : NativeAllocation) :
    Quiet { rt with ledger := releaseOld ctl.record rt.ledger }
      (rt.swapBinding os ctl tdom target a).2.1 := by
  unfold swapBinding releaseOld
  simp only
  cases ctl.record.backing.present <;> constructor <;> rfl

theorem migrateInto_run (admission : rt.migrateAdmit ctl target = some (tdom, l))
    (backend : env.allocate target (migrateSize ctl.record) ctl.record.alignment = .ok a) :
    MigrateRun rt os env ctl target (({ rt with ledger := l } : RuntimeImpl).migrateInto
      (os.log (.allocated target ctl.record.ownership (os.stamp a))) env ctl tdom target
      (migrateSize ctl.record) (os.stamp a)) := by
  unfold migrateInto
  simp only
  have hcopy : (os.log (.allocated target ctl.record.ownership (os.stamp a))).copyMemory env
      (os.stamp a).base ctl.record.backing.base (min ctl.record.committed (os.stamp a).committed)
      (target = .device) (ctl.record.domain = .device) = migrateCopy os env ctl target a := rfl
  rw [hcopy]
  cases hc : migrateCopy os env ctl target a with
  | mk res os₁ =>
      have h₁ : (migrateCopy os env ctl target a).1 = res := congrArg Prod.fst hc
      have h₂ : (migrateCopy os env ctl target a).2 = os₁ := congrArg Prod.snd hc
      cases res with
      | error e =>
          simp only
          rw [← h₂]
          exact .copyFailed admission backend h₁ (Quiet.refl _)
      | ok u =>
          simp only
          rw [← h₂]
          unfold commitAmount
          cases hm : l.commitAmount ctl.record.ns target (os.stamp a).committed with
          | error e =>
              exact .commitFailed admission backend h₁ (Ledger.commitAmount_error hm).1
                (Quiet.refl _)
          | ok l' =>
              simp only
              cases hv : env.verify target (os.stamp a) (os.stamp a).committed with
              | error e =>
                  refine .verifyFailed admission backend h₁ hm hv ?_
                  unfold undoCommit
                  -- the commit of a device is not undone
                  by_cases hd : target = .device
                  · simp only [hd, ne_eq, not_true_eq_false, if_false]
                    exact Quiet.refl _
                  · simp only [hd, ne_eq, not_false_eq_true, if_true]
                    exact Quiet.refl _
              | ok u =>
                  exact .swapped admission backend h₁ hm hv
                    (swapBinding_quiet { rt with ledger := l' } _ ctl tdom target (os.stamp a))

end Run

/-- Every call of `migrate` takes one of the exits. -/
theorem migrate_run (rt : RuntimeImpl) (os : Os) (env : Env) (ctl : Control)
    (target : MemoryDomain) : MigrateRun rt os env ctl target (rt.migrate os env ctl target) := by
  unfold migrate
  simp only
  by_cases h₁ : rt.closed = true
  · rw [if_pos h₁]
    exact .refused (if_pos (Or.inl h₁)) (Quiet.refl rt)
  rw [if_neg h₁]
  by_cases h₂ : ctl.record.domain = target
  · rw [if_pos h₂]
    exact .stays (if_pos (Or.inr (Or.inl h₂))) h₂
  rw [if_neg h₂]
  by_cases h₃ : ctl.record.state = .released ∨ ctl.record.state = .invalid
  · rw [if_pos h₃]
    exact .refused (if_pos (Or.inr (Or.inr (Or.inl h₃)))) (Quiet.refl rt)
  rw [if_neg h₃]
  by_cases h₄ : ctl.writeLeases > 0 ∨ ctl.exclusiveLeases > 0
  · rw [if_pos h₄]
    exact .refused (if_pos (Or.inr (Or.inr (Or.inr h₄)))) (quiet_count rt _ rfl rfl)
  rw [if_neg h₄]
  -- the checks are passed; what is left of `migrateAdmit` is the reservation
  have hadm : rt.migrateAdmit ctl target = _ := if_neg (by tauto)
  cases hd : rt.domain target with
  | none =>
      rw [hd] at hadm
      exact .refused hadm (Quiet.refl rt)
  | some tdom =>
      rw [hd] at hadm
      simp only at hadm ⊢
      cases hr : rt.reserveAmount ctl.record.ns target (migrateSize ctl.record) with
      | mk res rt₁ =>
          rcases reserveAmount_cases hr with ⟨e, rfl, hq, hl⟩ | ⟨l, rfl, rfl, hl⟩
          · rw [hl] at hadm
            exact .refused hadm hq
          · rw [hl] at hadm
            unfold Os.allocate
            cases hb : env.allocate target (migrateSize ctl.record) ctl.record.alignment with
            | error e => exact .backendFailed hadm hb (Quiet.refl _)
            | ok a => exact migrateInto_run hadm hb

/-- The checks and the reservation admit the migration, and the backend serves it with `a`: the
allocation, the copy, the commit and the verification succeed. -/
structure Rebinds (rt : RuntimeImpl) (os : Os) (env : Env) (ctl : Control) (target : MemoryDomain)
    (tdom : IDomain) (l : Ledger) (a : NativeAllocation) : Prop where
  admission : rt.migrateAdmit ctl target = some (tdom, l)
  backend : env.allocate target (migrateSize ctl.record) ctl.record.alignment = .ok a
  copy : (migrateCopy os env ctl target a).1 = .ok ()
  commit : a.committed ≤ l.reserved.get ctl.record.ns target
  verify : env.verify target (os.stamp a) a.committed = .ok ()

/-- A migration that leads elsewhere and is not served fails. -/
theorem migrate_fails {rt : RuntimeImpl} {os : Os} {env : Env} {ctl : Control}
    {target : MemoryDomain} (hmoves : rt.closed = true ∨ ctl.record.domain ≠ target)
    (hserved : ∀ tdom l a, ¬ rt.Rebinds os env ctl target tdom l a) :
    ∃ e, (rt.migrate os env ctl target).1 = .error e := by
  rcases hmoves with hclosed | hmoves
  · exact ⟨_, by rw [migrate, if_pos hclosed]⟩
  have hrun := rt.migrate_run os env ctl target
  generalize rt.migrate os env ctl target = out at hrun ⊢
  cases hrun with
  | stays _ same => exact absurd same hmoves
  | swapped admission backend copy commit verify _ =>
      exact absurd ⟨admission, backend, copy, (Ledger.commitAmount_ok commit).1, verify⟩
        (hserved _ _ _)
  | refused | backendFailed | copyFailed | commitFailed | verifyFailed => exact ⟨_, rfl⟩

end RuntimeImpl

end UnifiedBuffer
