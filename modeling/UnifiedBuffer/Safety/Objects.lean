import UnifiedBuffer.Safety.RefCount

set_option autoImplicit false

/-! # The objects of a program

What can be among the objects after an operation: those that were there, objects that have lost
their reference, and the one the operation returns. -/

namespace UnifiedBuffer

namespace World

variable {w : World} {op : Op} {base : List BufferId}

/-- The operation may return the object. Only `view`, `map` and the leases return something other
than a handle. -/
inductive Makes (w : World) : Op → Obj → Prop
  | handle {op : Op} (h : BufferHandle) : w.Makes op (.handle h)
  | view {i : Nat} {offset len : UInt64} {access : AccessMode} {v : BufferView}
      (ok : ((w.handle i).view w.core offset len access).1 = .ok v) :
      w.Makes (.view i offset len access) (.view v)
  | map {env : Env} {i : Nat} {access : AccessMode} {m : BufferMap}
      (ok : ((w.handle i).map w.core env access).1 = .ok m) : w.Makes (.map env i access) (.map m)
  | lease {kind : LeaseKind} {i : Nat} {l : BufferLease}
      (ok : ((w.handle i).acquire kind w.core).1 = .ok l) : w.Makes (.acquire kind i) (.lease l)

/-- The object comes from before the operation, or is empty, or is returned by it. -/
def Comes (w : World) (op : Op) (o : Obj) : Prop := o ∈ w.objs ∨ o.Empty ∨ w.Makes op o

theorem comes_give {α : Type} {wrap : α → Obj} {q : Except Error α × Core}
    (hnew : ∀ a, q.1 = .ok a → w.Makes op (wrap a)) {o : Obj} (ho : o ∈ (w.give wrap q).2.objs) :
    w.Comes op o := by
  obtain ⟨res, c⟩ := q
  cases res with
  | error e => exact Or.inl ho
  | ok a =>
      rcases List.mem_append.mp ho with ho | ho
      · exact Or.inl ho
      · rw [List.mem_singleton.mp ho]
        exact Or.inr (Or.inr (hnew a rfl))

theorem comes_giveHandle {q : Except Error CtlId × Core} {o : Obj}
    (ho : o ∈ (w.giveHandle q).2.objs) : w.Comes op o := by
  obtain ⟨res, c⟩ := q
  cases res with
  | error e => exact Or.inl ho
  | ok k =>
      rcases List.mem_append.mp ho with ho | ho
      · exact Or.inl ho
      · rw [List.mem_singleton.mp ho]
        exact Or.inr (Or.inr (.handle _))

/-- An object was replaced by an empty one. -/
theorem comes_set {objs : List Obj} {i : Nat} {x o : Obj} (hx : x.Empty)
    (hobjs : ∀ o ∈ objs, w.Comes op o) (ho : o ∈ objs.set i x) : w.Comes op o := by
  rcases List.mem_or_eq_of_mem_set ho with ho | rfl
  · exact hobjs o ho
  · exact Or.inr (Or.inl hx)

theorem comes_releaseAt (hinv : w.RefInv base) {env : Env} {i : Nat} {o : Obj}
    (ho : o ∈ (w.releaseAt env i).objs) : w.Comes op o := by
  unfold releaseAt at ho
  split at ho
  · exact Or.inl ho
  · rename_i x hx
    exact comes_set (Obj.empty_release (hinv.objs x (List.mem_of_getElem? hx)) _ _)
      (fun _ => Or.inl) ho

theorem comes_destroyAt (hinv : w.RefInv base) {env : Env} {i : Nat} {o : Obj}
    (ho : o ∈ (w.destroyAt env i).objs) : w.Comes op o := by
  unfold destroyAt at ho
  split at ho
  · exact Or.inl ho
  · rename_i x hx
    exact comes_set (Obj.empty_reset (hinv.objs x (List.mem_of_getElem? hx)) _ _)
      (fun _ => Or.inl) ho

theorem comes_moveFrom {src : Nat} {o : Obj} (ho : o ∈ (w.moveFrom src).2.objs) :
    w.Comes op o := by
  unfold moveFrom at ho
  split at ho
  · exact Or.inl ho
  · rename_i x hx
    rcases List.mem_append.mp ho with ho | ho
    · exact comes_set (Obj.empty_movedFrom x) (fun _ => Or.inl) ho
    · rw [List.mem_singleton.mp ho]
      exact Or.inl (List.mem_of_getElem? hx)

theorem comes_moveAssign (hinv : w.RefInv base) {env : Env} {dst src : Nat} {o : Obj}
    (ho : o ∈ (w.moveAssign env dst src).objs) : w.Comes op o := by
  unfold moveAssign at ho
  split at ho
  · rename_i x x' hx hx'
    split at ho
    · exact Or.inl ho
    · rcases List.mem_or_eq_of_mem_set ho with ho | rfl
      · exact comes_set (Obj.empty_movedFrom x') (fun _ => comes_destroyAt hinv) ho
      · exact Or.inl (List.mem_of_getElem? hx')
  · exact Or.inl ho

/-- Every object after an operation comes from before it, is empty, or is returned by it. -/
theorem RefInv.comes (hinv : w.RefInv base) {o : Obj} (ho : o ∈ (w.next op).objs) :
    w.Comes op o := by
  cases op with
  | view i offset len access => exact comes_give (fun _ h => .view h) ho
  | map env i access => exact comes_give (fun _ h => .map h) ho
  | acquire kind i => exact comes_give (fun _ h => .lease h) ho
  | share i => exact comes_give (fun _ _ => .handle _) ho
  | allocate env req =>
      have ho : o ∈ (w.allocate env req).2.objs := ho
      unfold World.allocate at ho
      split at ho
      · exact Or.inl ho
      · exact comes_giveHandle ho
  | wrapExternal | importBuffer => exact comes_giveHandle ho
  | migrate env i target =>
      have ho : o ∈ (w.migrate env i target).2.objs := ho
      unfold World.migrate at ho
      split at ho
      · exact Or.inl ho
      split at ho
      · exact Or.inl ho
      · exact comes_giveHandle ho
  | exportBuffer env i =>
      have ho : o ∈ (w.exportBuffer env i).2.objs := ho
      unfold World.exportBuffer at ho
      split at ho <;> exact Or.inl ho
  | construct x =>
      rcases List.mem_append.mp ho with ho | ho
      · exact Or.inl ho
      · rw [List.mem_singleton.mp ho]
        exact Or.inr (Or.inl (Obj.empty_empty x))
  | move => exact comes_moveFrom ho
  | moveAssign => exact comes_moveAssign hinv ho
  | release => exact comes_releaseAt hinv ho
  | destroy => exact comes_destroyAt hinv ho
  | verify | checksum | copyTo | copyFrom | invalidate | poolTrim | shutdown | createNamespace =>
      exact Or.inl ho

/-! ## Positions -/

/-- The positions at which an operation may change an object. A new object comes after the last. -/
def Touches (w : World) : Op → Nat → Prop
  | .move src, p => p = src ∨ p = w.objs.length
  | .moveAssign _ dst src, p => p = dst ∨ p = src
  | .release _ i, p => p = i
  | .destroy _ i, p => p = i
  | _, p => p = w.objs.length

theorem getElem?_append_new (objs : List Obj) (o : Obj) {p : Nat} (hp : p ≠ objs.length) :
    (objs ++ [o])[p]? = objs[p]? := by
  rcases Nat.lt_or_ge p objs.length with hlt | hge
  · exact List.getElem?_append_left hlt
  · rw [List.getElem?_eq_none (by rw [List.length_append, List.length_singleton]; omega),
      List.getElem?_eq_none hge]

theorem getElem?_give {α : Type} {wrap : α → Obj} {q : Except Error α × Core} {p : Nat}
    (hp : p ≠ w.objs.length) : (w.give wrap q).2.objs[p]? = w.objs[p]? := by
  obtain ⟨res, c⟩ := q
  cases res with
  | error e => rfl
  | ok a => exact getElem?_append_new w.objs (wrap a) hp

theorem getElem?_giveHandle {q : Except Error CtlId × Core} {p : Nat} (hp : p ≠ w.objs.length) :
    (w.giveHandle q).2.objs[p]? = w.objs[p]? := by
  obtain ⟨res, c⟩ := q
  cases res with
  | error e => rfl
  | ok k => exact getElem?_append_new w.objs _ hp

theorem getElem?_destroyAt {env : Env} {i p : Nat} (hp : p ≠ i) :
    (w.destroyAt env i).objs[p]? = w.objs[p]? := by
  unfold destroyAt
  split
  · rfl
  · exact List.getElem?_set_ne hp.symm

theorem length_destroyAt (w : World) (env : Env) (i : Nat) :
    (w.destroyAt env i).objs.length = w.objs.length := by
  unfold destroyAt
  split
  · rfl
  · exact List.length_set

/-- An operation leaves the objects at other positions as they are. -/
theorem getElem?_next {p : Nat} (hp : ¬ w.Touches op p) :
    (w.next op).objs[p]? = w.objs[p]? := by
  cases op with
  | view | map | acquire | share => exact getElem?_give hp
  | wrapExternal | importBuffer => exact getElem?_giveHandle hp
  | allocate env req =>
      show (w.allocate env req).2.objs[p]? = _
      unfold World.allocate
      split
      · rfl
      · exact getElem?_giveHandle hp
  | migrate env i target =>
      show (w.migrate env i target).2.objs[p]? = _
      unfold World.migrate
      split
      · rfl
      split
      · rfl
      · exact getElem?_giveHandle hp
  | exportBuffer env i =>
      show (w.exportBuffer env i).2.objs[p]? = _
      unfold World.exportBuffer
      split <;> rfl
  | construct x => exact getElem?_append_new w.objs _ hp
  | move src =>
      obtain ⟨hsrc, hnew⟩ := not_or.mp hp
      show (w.moveFrom src).2.objs[p]? = _
      unfold World.moveFrom
      split
      · rfl
      · rename_i o ho
        rw [getElem?_append_new _ o (by rwa [List.length_set])]
        exact List.getElem?_set_ne (Ne.symm hsrc)
  | moveAssign env dst src =>
      obtain ⟨hdst, hsrc⟩ := not_or.mp hp
      show (w.moveAssign env dst src).objs[p]? = _
      unfold World.moveAssign
      split
      · split
        · rfl
        · rw [List.getElem?_set_ne (Ne.symm hdst), List.getElem?_set_ne (Ne.symm hsrc)]
          exact getElem?_destroyAt hdst
      · rfl
  | release env i =>
      show (w.releaseAt env i).objs[p]? = _
      unfold releaseAt
      split
      · rfl
      · exact List.getElem?_set_ne (Ne.symm hp)
  | destroy env i => exact getElem?_destroyAt hp
  | verify | checksum | copyTo | copyFrom | invalidate | poolTrim | shutdown | createNamespace =>
      rfl

/-- No object goes away. -/
theorem length_next (w : World) (op : Op) : w.objs.length ≤ (w.next op).objs.length := by
  have hgrow : ∀ {objs : List Obj} {o : Obj}, w.objs.length ≤ objs.length →
      w.objs.length ≤ (objs ++ [o]).length := by
    intro objs o h
    rw [List.length_append]
    omega
  have hgive : ∀ q : Except Error CtlId × Core, w.objs.length ≤ (w.giveHandle q).2.objs.length := by
    rintro ⟨_ | k, c⟩
    · exact le_rfl
    · exact hgrow le_rfl
  have hgive' : ∀ {α : Type} (wrap : α → Obj) (q : Except Error α × Core),
      w.objs.length ≤ (w.give wrap q).2.objs.length := by
    rintro α wrap ⟨_ | a, c⟩
    · exact le_rfl
    · exact hgrow le_rfl
  cases op with
  | view | map | acquire | share => exact hgive' _ _
  | wrapExternal | importBuffer => exact hgive _
  | allocate env req =>
      show _ ≤ (w.allocate env req).2.objs.length
      unfold World.allocate
      split
      · exact le_rfl
      · exact hgive _
  | migrate env i target =>
      show _ ≤ (w.migrate env i target).2.objs.length
      unfold World.migrate
      split
      · exact le_rfl
      split
      · exact le_rfl
      · exact hgive _
  | exportBuffer env i =>
      show _ ≤ (w.exportBuffer env i).2.objs.length
      unfold World.exportBuffer
      split <;> exact le_rfl
  | construct x => exact hgrow le_rfl
  | move src =>
      show _ ≤ (w.moveFrom src).2.objs.length
      unfold World.moveFrom
      split
      · exact le_rfl
      · exact hgrow List.length_set.ge
  | moveAssign env dst src =>
      show _ ≤ (w.moveAssign env dst src).objs.length
      unfold World.moveAssign
      split
      · split
        · exact le_rfl
        · rw [List.length_set, List.length_set]
          exact (w.length_destroyAt env dst).ge
      · exact le_rfl
  | release env i =>
      show _ ≤ (w.releaseAt env i).objs.length
      unfold releaseAt
      split
      · exact le_rfl
      · exact List.length_set.ge
  | destroy env i => exact (w.length_destroyAt env i).ge
  | verify | checksum | copyTo | copyFrom | invalidate | poolTrim | shutdown | createNamespace =>
      exact le_rfl

end World

end UnifiedBuffer
