import UnifiedBuffer.Inventory.Balance

set_option autoImplicit false

/-! # The peak of committed bytes

`stats()` reports the sum of all committed cells as `bytes_committed`, and as `peak_bytes` the
largest argument that `commit_amount` has passed to `update_peak`: the committed and the allocated
cell of one namespace and domain, added up. A commit puts its bytes into both cells, so the first
one that brings any bytes makes the peak twice what is committed. -/

namespace UnifiedBuffer

open Lib

/-! ## Blank accounts -/

/-- Nothing is committed or allocated, and nothing was. -/
structure Ledger.Blank (l : Ledger) : Prop where
  committed : ∀ n d, l.committed.get n d = 0
  allocated : ∀ n d, l.allocated.get n d = 0
  peak : l.peakCommitted = 0

namespace Ledger

variable {l l' : Ledger} {cap quota : UInt64} {ns : NamespaceId} {d : MemoryDomain} {bytes : UInt64}

theorem zero_satSub (b : UInt64) : satSub 0 b = 0 := by
  rw [← UInt64.toNat_inj, toNat_satSub]
  exact Nat.zero_sub _

theorem Blank.reserve (h : l.Blank) (hl : l.reserveAmount cap quota ns d bytes = .ok l') :
    l'.Blank := by
  rcases reserveAmount_ok hl with ⟨-, rfl⟩ | ⟨-, -, -, rfl⟩
  · exact h
  · exact ⟨h.committed, h.allocated, h.peak⟩

/-- What a commit does to the peak. -/
theorem commitAmount_peak (hl : l.commitAmount ns d bytes = .ok l') :
    l'.peakCommitted = if l.committed.get ns d + bytes + (l.allocated.get ns d + bytes)
        > l.peakCommitted
      then l.committed.get ns d + bytes + (l.allocated.get ns d + bytes) else l.peakCommitted := by
  have hle := commitAmount_isOk_iff.mp ⟨l', hl⟩
  unfold commitAmount at hl
  simp only [if_neg (UInt64.not_lt.mpr hle)] at hl
  cases hl
  unfold updatePeak
  split <;> rfl

/-- The peak of the first commit is twice its bytes. -/
theorem Blank.commit_peak (h : l.Blank) (hl : l.commitAmount ns d bytes = .ok l') :
    l'.peakCommitted = bytes + bytes := by
  rw [commitAmount_peak hl, h.committed, h.allocated, h.peak, UInt64.zero_add]
  split
  · rfl
  · rename_i hle
    exact (UInt64.le_zero_iff.mp (UInt64.not_lt.mp hle)).symm

theorem Blank.commit (h : l.Blank) (hl : l.commitAmount ns d 0 = .ok l') : l'.Blank := by
  obtain ⟨-, -, hcomm, halloc, -⟩ := commitAmount_ok hl
  refine ⟨fun n e => ?_, fun n e => ?_, ?_⟩
  · rw [hcomm, Cells.get_set_same _ _ _ _ _ _ (UInt64.add_zero _)]
    exact h.committed n e
  · rw [halloc, Cells.get_set_same _ _ _ _ _ _ (UInt64.add_zero _)]
    exact h.allocated n e
  · rw [h.commit_peak hl]
    rfl

theorem Blank.free (h : l.Blank) (ns : NamespaceId) (d : MemoryDomain) (bytes : UInt64) :
    (l.freeAccounting ns d bytes).Blank := by
  refine ⟨fun n e => ?_, fun n e => ?_, h.peak⟩
  · rw [freeAccounting, Cells.get_set_same _ _ _ _ _ _ (by rw [h.committed, zero_satSub])]
    exact h.committed n e
  · rw [freeAccounting, Cells.get_set_same _ _ _ _ _ _ (by rw [h.allocated, zero_satSub])]
    exact h.allocated n e

theorem Blank.checkout (h : l.Blank) (ns : NamespaceId) (d : MemoryDomain) :
    (l.checkoutAmount ns d 0).Blank := by
  refine ⟨h.committed, fun n e => ?_, h.peak⟩
  rw [checkoutAmount, Cells.get_set_same _ _ _ _ _ _ (UInt64.add_zero _)]
  exact h.allocated n e

theorem Blank.shelve (h : l.Blank) (ns : NamespaceId) (d : MemoryDomain) (bytes : UInt64) :
    (l.releaseAmount ns d bytes true).Blank := by
  refine ⟨h.committed, fun n e => ?_, h.peak⟩
  show (l.allocated.set ns d (satSub (l.allocated.get ns d) bytes)).get n e = 0
  rw [Cells.get_set_same _ _ _ _ _ _ (by rw [h.allocated, zero_satSub])]
  exact h.allocated n e

end Ledger

/-- The accounts are blank, and what is in the pool or may return to it has no bytes. -/
structure Stock.Blank (s : Stock) : Prop where
  ledger : s.ledger.Blank
  live : ∀ h ∈ s.live, h.poolable = true → h.backing.committed = 0
  idle : ∀ p ∈ s.idle, p.backing.committed = 0

/-- The deal commits no bytes. -/
def Deal.CommitsNothing : Deal → Prop
  | .waste _ _ _ a _ => a.committed = 0
  | .book h => h.committed = 0
  | _ => True

instance : (deal : Deal) → Decidable deal.CommitsNothing
  | .waste .. => inferInstanceAs (Decidable (_ = _))
  | .book .. => inferInstanceAs (Decidable (_ = _))
  | .reserve .. | .unreserve .. | .visit .. | .take .. | .lose .. | .shelve .. | .settle ..
  | .drop .. | .wrap .. | .receive .. | .stray .. | .trim .. | .close | .requota .. =>
      instDecidableTrue

namespace Stock

variable {s : Stock} {deal : Deal}

theorem Blank.ledger_apply (h : s.Blank) (hcan : s.Can deal) (hnone : deal.CommitsNothing) :
    (s.apply deal).ledger.Blank := by
  cases deal with
  | visit | drop | wrap | receive | stray | close | requota => exact h.ledger
  | unreserve ns d bytes => exact ⟨h.ledger.committed, h.ledger.allocated, h.ledger.peak⟩
  | reserve ns d bytes =>
      obtain ⟨l, hl⟩ := hcan
      show (s.reserved ns d bytes).Blank
      rw [reserved_eq hl]
      exact h.ledger.reserve hl
  | waste ns d owner a undo =>
      have hzero : a.committed = 0 := hnone
      -- a commit of no bytes raises no peak
      have hcommit := committed_eq hcan.2.2.1
      show (giveBack ns d undo (s.committed ns d a.committed)).Blank
      rw [hzero] at hcommit ⊢
      cases undo with
      | none => exact h.ledger.commit hcommit
      | some bytes => exact (h.ledger.commit hcommit).free ns d bytes
  | book b =>
      have hzero : b.committed = 0 := hnone
      have hcommit := committed_eq hcan.2.2.2.1
      show (s.committed b.ns b.domain b.committed).Blank
      rw [hzero] at hcommit ⊢
      exact h.ledger.commit hcommit
  | take p b =>
      obtain ⟨hmem, hback, -, hsize, -⟩ := hcan
      show (s.ledger.checkoutAmount b.ns b.domain b.committed).Blank
      rw [hsize, hback, h.idle p hmem]
      exact h.ledger.checkout _ _
  | lose ns p =>
      show ((s.ledger.checkoutAmount ns p.domain p.backing.committed).freeAccounting _ _ _).Blank
      rw [h.idle p hcan]
      exact (h.ledger.checkout _ _).free _ _ _
  | shelve b => exact h.ledger.shelve _ _ _
  | settle b => exact h.ledger.free _ _ _
  | trim p => exact h.ledger.free _ _ _

theorem Blank.apply (h : s.Blank) (hcan : s.Can deal) (hnone : deal.CommitsNothing) :
    (s.apply deal).Blank := by
  have hledger := h.ledger_apply hcan hnone
  have hcons : ∀ {b : Holding}, (b.poolable = true → b.backing.committed = 0) →
      ∀ b' ∈ b ::ₘ s.live, b'.poolable = true → b'.backing.committed = 0 :=
    fun hb => Multiset.forall_mem_cons.mpr ⟨hb, h.live⟩
  have herase : ∀ b, ∀ b' ∈ s.live.erase b, b'.poolable = true → b'.backing.committed = 0 :=
    fun _ b' hb' => h.live b' (Multiset.mem_of_mem_erase hb')
  have hleft : ∀ p, ∀ q ∈ s.idle.erase p, q.backing.committed = 0 :=
    fun _ q hq => h.idle q (Multiset.mem_of_mem_erase hq)
  cases deal with
  | reserve | unreserve | visit | waste | stray | close | requota => exact ⟨hledger, h.live, h.idle⟩
  | book b => exact ⟨hledger, hcons fun _ => hcan.2.2.1 ▸ hnone, h.idle⟩
  | take p b =>
      exact ⟨hledger, hcons fun _ => by rw [hcan.2.1]; exact h.idle p hcan.1, hleft p⟩
  | lose ns p | trim p => exact ⟨hledger, h.live, hleft p⟩
  | shelve b =>
      exact ⟨hledger, herase b,
        Multiset.forall_mem_cons.mpr ⟨h.live b hcan.1 hcan.2.1, h.idle⟩⟩
  | settle b | drop b => exact ⟨hledger, herase b, h.idle⟩
  | wrap b => exact ⟨hledger, hcons fun hp => absurd (hp.symm.trans hcan.1) nofun, h.idle⟩
  | receive b => exact ⟨hledger, hcons fun hp => absurd (hp.symm.trans hcan.2.2.1) nofun, h.idle⟩

end Stock

/-! ## The first commit -/

/-- All committed bytes are the `c` bytes of one commit. -/
structure Ledger.CommittedOnce (l : Ledger) (n : NamespaceId) (d : MemoryDomain) (c : UInt64) :
    Prop where
  cell : l.committed.get n d = c
  others : ∀ m e, ¬ (n = m ∧ d = e) → l.committed.get m e = 0
  peak : l.peakCommitted = c + c

namespace Ledger

variable {l l' : Ledger} {n : NamespaceId} {d : MemoryDomain} {c : UInt64}

theorem Blank.commit_once (h : l.Blank) (hl : l.commitAmount n d c = .ok l') :
    l'.CommittedOnce n d c := by
  obtain ⟨-, -, hcomm, -⟩ := commitAmount_ok hl
  refine ⟨?_, fun m e hne => ?_, h.commit_peak hl⟩
  · rw [hcomm, Cells.get_set_self, h.committed, UInt64.zero_add]
  · rw [hcomm, Cells.get_set, if_neg hne]
    exact h.committed m e

/-- A subtraction from another cell finds nothing there. -/
theorem CommittedOnce.free (h : l.CommittedOnce n d c) {m : NamespaceId} {e : MemoryDomain}
    (hne : ¬ (n = m ∧ d = e)) (bytes : UInt64) :
    (l.freeAccounting m e bytes).CommittedOnce n d c := by
  have hsame : ∀ n' d', (l.freeAccounting m e bytes).committed.get n' d'
      = l.committed.get n' d' := by
    intro n' d'
    rw [freeAccounting, Cells.get_set_same _ _ _ _ _ _ (by rw [h.others m e hne, zero_satSub])]
  refine ⟨?_, fun n' d' hother => ?_, h.peak⟩
  · rw [hsame]
    exact h.cell
  · rw [hsame]
    exact h.others n' d' hother

end Ledger

/-- The sum of a domain with one cell that is not zero. -/
theorem Cells.total_of_one (c : Cells) {n : NamespaceId} {d : MemoryDomain}
    (h : ∀ m, m ≠ n → c.get m d = 0) : c.total d = (c.get n d).toNat := by
  have hset := c.total_set n d d 0
  have hzero : (c.set n d 0).total d = 0 := by
    refine (AssocMap.total_eq_zero_iff _ _).mpr fun e he => ?_
    have hrow : (c.set n d 0).get e.1 d = e.2 d := by
      rw [Cells.get, (AssocMap.mem_entries_iff _ _ _).mp he]
    rw [← hrow, Cells.get_set]
    split
    · rfl
    · rename_i hne
      rw [h e.1 fun heq => hne ⟨heq.symm, rfl⟩]
      rfl
  simp only [if_true] at hset
  rw [hzero, Nat.zero_add] at hset
  exact hset.symm

namespace RuntimeImpl

variable {rt : RuntimeImpl}

/-- The reported bytes of a domain are the sum of its cells modulo `2^64`. -/
theorem toNat_domainBytes (d : MemoryDomain) :
    (rt.domainBytes d).toNat = rt.ledger.committed.total d % 2 ^ 64 := by
  have hfold : ∀ (rows : List (NamespaceId × (MemoryDomain → UInt64))) (x : UInt64),
      (rows.foldl (fun sum e => sum + e.2 d) x).toNat
        = (x.toNat + (rows.map fun e => (e.2 d).toNat).sum) % 2 ^ 64 := by
    intro rows
    induction rows with
    | nil => exact fun x => (Nat.mod_eq_of_lt x.toNat_lt).symm
    | cons e rows ih =>
        intro x
        rw [List.foldl_cons, ih, List.map_cons, List.sum_cons, UInt64.toNat_add]
        omega
  rw [domainBytes, hfold]
  exact congrArg (· % 2 ^ 64) (Nat.zero_add _)

theorem bytesCommitted_blank (h : rt.ledger.Blank) : rt.telemetry.bytesCommitted = 0 := by
  have hzero : ∀ d, rt.domainBytes d = 0 := fun d => domainBytes_eq_zero fun n => h.committed n d
  show rt.domainBytes .host + rt.domainBytes .pinnedHost + rt.domainBytes .device
    + rt.domainBytes .sharedHost + rt.domainBytes .mmapStorage = 0
  rw [hzero, hzero, hzero, hzero, hzero]
  rfl

theorem bytesCommitted_once {n : NamespaceId} {d : MemoryDomain} {c : UInt64}
    (h : rt.ledger.CommittedOnce n d c) : rt.telemetry.bytesCommitted = c := by
  have hbytes : ∀ e, rt.domainBytes e = if d = e then c else 0 := by
    intro e
    have htotal := rt.ledger.committed.total_of_one (n := n) (d := e)
      fun m hm => h.others m e fun he => hm he.1.symm
    rw [← UInt64.toNat_inj, toNat_domainBytes, htotal, Nat.mod_eq_of_lt (UInt64.toNat_lt _)]
    split
    · rename_i heq
      rw [← heq, h.cell]
    · rename_i hne
      rw [h.others n e fun he => hne he.2]
  show rt.domainBytes .host + rt.domainBytes .pinnedHost + rt.domainBytes .device
    + rt.domainBytes .sharedHost + rt.domainBytes .mmapStorage = c
  rw [hbytes, hbytes, hbytes, hbytes, hbytes]
  cases d <;> simp

end RuntimeImpl

/-! ## The deals that book a buffer -/

section Books

variable {rt : RuntimeImpl} {os : Os} {env : Env} {h : Holding}

theorem allocateDeals_book {req : AllocationRequest}
    (hmem : .book h ∈ rt.allocateDeals os env req) :
    ∃ ns d bytes, rt.allocateDeals os env req = [.reserve ns d bytes, .book h] := by
  unfold RuntimeImpl.allocateDeals at hmem ⊢
  cases hadmission : rt.admits req with
  | none => simp [hadmission] at hmem
  | some x =>
      simp only [hadmission] at hmem ⊢
      split at hmem
      · split at hmem <;> simp at hmem
      split at hmem
      · simp at hmem
      split at hmem
      · simp at hmem
      split at hmem
      · simp at hmem
      · rename_i hcommit hzero
        simp only [List.mem_cons, List.not_mem_nil, reduceCtorEq, false_or, or_false,
          Deal.book.injEq] at hmem
        subst hmem
        exact ⟨req.ns, req.domain, x.2.1, by rw [if_neg hcommit, if_neg hzero]⟩

theorem migrateDeals_book {ctl : Control} {target : MemoryDomain}
    (hmem : .book h ∈ rt.migrateDeals os env ctl target) :
    ∃ ns d bytes last, rt.migrateDeals os env ctl target = [.reserve ns d bytes, .book h, last] ∧
      ((∃ b, last = .drop b) ∨ ∃ b, last = .settle b ∧ b.domain ≠ h.domain) := by
  unfold RuntimeImpl.migrateDeals at hmem ⊢
  cases hadmission : rt.migrateAdmit ctl target with
  | none => simp [hadmission] at hmem
  | some x =>
      -- a buffer that is in the target domain already is not moved
      have hmoves : ctl.record.domain ≠ target := by
        intro hsame
        rw [RuntimeImpl.migrateAdmit, if_pos (Or.inr (Or.inl hsame))] at hadmission
        cases hadmission
      simp only [hadmission] at hmem ⊢
      split at hmem
      · simp at hmem
      split at hmem
      · simp at hmem
      split at hmem
      · simp at hmem
      · rename_i a _ hcopy _ _ hverify
        have heq : h = (rt.rebind x.1 target ctl.record (os.stamp a)).holding := by
          split at hmem <;> simpa using hmem
        subst heq
        refine ⟨ctl.record.ns, target, RuntimeImpl.migrateSize ctl.record,
          if ctl.record.backing.present then .settle ctl.record.holding
            else .drop ctl.record.holding, ?_, ?_⟩
        · rw [if_neg hcopy]
        · split
          · exact Or.inr ⟨_, rfl, hmoves⟩
          · exact Or.inl ⟨_, rfl⟩

end Books

/-! ## Whole runs -/

namespace World

/-- The largest `bytes_committed` that `stats()` would have reported along a run. -/
def highWater (w : World) : List Op → Nat
  | [] => w.core.rt.telemetry.bytesCommitted.toNat
  | op :: ops => max w.core.rt.telemetry.bytesCommitted.toNat ((w.next op).highWater ops)

/-- The operation commits no bytes: it gets no memory from a backend, or gives it back before the
commit, or the memory has no committed bytes. -/
def CommitsNothing (w : World) (op : Op) : Prop := w.Keeps (fun _ deal => deal.CommitsNothing) op

instance (w : World) (op : Op) : Decidable (w.CommitsNothing op) :=
  inferInstanceAs (Decidable (w.Keeps _ op))

/-- In other words: what a backend serves and the runtime commits has no bytes. -/
theorem commitsNothing_of {w : World} {op : Op} (h : ∀ a, w.Commits op a → a.committed = 0) :
    w.CommitsNothing op := by
  refine keeps_of (fun _ _ _ _ => trivial) fun deal haccount s => ?_
  cases deal with
  | waste ns d owner a undo =>
      obtain ⟨b, hcommits, hbytes⟩ := haccount
      exact hbytes.trans (h b hcommits)
  | book b =>
      obtain ⟨⟨a, hcommits, hbytes⟩, -⟩ := haccount
      exact hbytes.trans (h a hcommits)
  | reserve | unreserve | visit | take | lose | shelve | settle | drop | wrap | receive | stray | trim
  | close | requota => trivial

variable {w : World} {op : Op} {base : List BufferId}

theorem blank_next (hinv : w.RefInv base) (h : w.core.stock.Blank) (hop : w.CommitsNothing op) :
    (w.next op).core.stock.Blank := by
  obtain ⟨hnext, hcan⟩ := next_stock hinv op
  rw [hnext]
  exact hcan.invariant hop h fun _ _ hs hc hn => hs.apply hc hn

/-- Along a run that commits nothing, the accounts stay blank, and the high-water mark is what the
last operation leaves. -/
theorem blank_runs (hinv : w.RefInv base) (h : w.core.stock.Blank) {ops : List Op}
    (hops : Along World.next World.CommitsNothing w ops) :
    (runs World.next w ops).core.stock.Blank ∧ (runs World.next w ops).RefInv base ∧
      w.highWater ops = 0 ∧ ∀ op, w.highWater (ops ++ [op])
        = ((runs World.next w ops).next op).core.rt.telemetry.bytesCommitted.toNat := by
  have hzero : w.core.rt.telemetry.bytesCommitted.toNat = 0 := by
    rw [RuntimeImpl.bytesCommitted_blank h.ledger]
    rfl
  -- every state on the way has nothing committed, so the maximum is that of the last one
  induction ops generalizing w with
  | nil =>
      refine ⟨h, hinv, hzero, fun op => ?_⟩
      show max _ _ = _
      rw [hzero, Nat.zero_max]
      rfl
  | cons op ops ih =>
      have hnext := blank_next hinv h hops.1
      have hzero' : (w.next op).core.rt.telemetry.bytesCommitted.toNat = 0 := by
        rw [RuntimeImpl.bytesCommitted_blank hnext.ledger]
        rfl
      obtain ⟨hblank, hinv', hwater, hlast⟩ := ih (hinv.next op) hnext hops.2 hzero'
      refine ⟨hblank, hinv', ?_, fun op' => ?_⟩
      · show max _ _ = 0
        rw [hzero, hwater, Nat.zero_max]
      · show max _ ((w.next op).highWater (ops ++ [op'])) = _
        rw [hzero, Nat.zero_max, hlast]
        rfl

/-- After the first operation that books a buffer, its bytes are all that is committed. -/
theorem committedOnce_next (hinv : w.RefInv base) (h : w.core.stock.Blank) {b : Holding}
    (hbook : .book b ∈ w.deals op) :
    (w.next op).core.rt.ledger.CommittedOnce b.ns b.domain b.committed := by
  obtain ⟨hnext, hcan⟩ := next_stock hinv op
  have hledger : (w.next op).core.rt.ledger
      = (runs Stock.apply w.core.stock (w.deals op)).ledger := congrArg Stock.ledger hnext
  rw [hledger]
  -- the ledger after the reservation and the commit
  have htwo : ∀ {ns d bytes} {rest : List Deal},
      Along Stock.apply Stock.Can w.core.stock (.reserve ns d bytes :: .book b :: rest) →
      (runs Stock.apply w.core.stock [.reserve ns d bytes, .book b]).ledger.CommittedOnce b.ns
        b.domain b.committed := by
    rintro ns d bytes rest ⟨hreserve, hbook, -⟩
    exact ((h.apply hreserve trivial).ledger).commit_once (Stock.committed_eq hbook.2.2.2.1)
  have hclosing : op.Frugal → False := fun hf => w.deals_closing hf _ hbook
  cases op with
  | allocate env req =>
      obtain ⟨ns, d, bytes, hdeals⟩ := allocateDeals_book hbook
      have hdeals : w.deals (.allocate env req) = _ := hdeals
      rw [hdeals] at hcan ⊢
      exact htwo hcan
  | migrate env i target =>
      have hbook' : .book b ∈ w.migrateDeals env i target := hbook
      unfold World.migrateDeals at hbook'
      cases hk : (w.handle i).validateAlive w.core with
      | error e => simp [hk] at hbook'
      | ok k =>
          rw [hk] at hbook'
          obtain ⟨ns, d, bytes, last, hdeals, hlast⟩ := migrateDeals_book hbook'
          have hdeals : w.deals (.migrate env i target)
              = [.reserve ns d bytes, .book b, last] := by
            show w.migrateDeals env i target = _
            unfold World.migrateDeals
            rw [hk]
            exact hdeals
          rw [hdeals] at hcan ⊢
          have honce := htwo hcan
          rcases hlast with ⟨b', rfl⟩ | ⟨b', rfl, hne⟩
          · exact honce
          · exact honce.free (fun he => hne he.2.symm) _
  | wrapExternal desc =>
      have hbook' : .book b ∈ w.core.wrapDeals desc := hbook
      unfold Core.wrapDeals at hbook'
      split at hbook' <;> simp at hbook'
  | importBuffer env desc ns label =>
      have hbook' : .book b ∈ w.core.importDeals env desc ns label := hbook
      unfold Core.importDeals Core.segmentDeals at hbook'
      split at hbook'
      · split at hbook'
        · split at hbook' <;> simp at hbook'
        · simp at hbook'
      · simp at hbook'
  | createNamespace nsc =>
      have hbook' : .book b ∈ [Deal.requota (w.core.createNamespace nsc).rt.domainQuota] := hbook
      simp at hbook'
  | _ => exact absurd trivial hclosing

end World

theorem blank_init (cfg : RuntimeConfig) (plat : RuntimeImpl.Platform) :
    (World.init cfg plat).core.stock.Blank where
  ledger := ⟨fun _ _ => rfl, fun _ _ => rfl, rfl⟩
  live h hx := absurd hx (Multiset.notMem_zero h)
  idle p hx := absurd hx (Multiset.notMem_zero p)

/-- **When the peak is the peak.** As long as a run has committed nothing, `peak_bytes` is the
largest `bytes_committed` so far, which is zero; the first operation that gives a buffer memory with
committed bytes makes it wrong. -/
theorem peak_correct_until_commit (cfg : RuntimeConfig) (plat : RuntimeImpl.Platform) {ops : List Op}
    (hops : Along World.next World.CommitsNothing (World.init cfg plat) ops) :
    (runs World.next (World.init cfg plat) ops).core.rt.telemetry.peakBytes.toNat
        = (World.init cfg plat).highWater ops ∧
      ∀ op b, .book b ∈ (runs World.next (World.init cfg plat) ops).deals op → b.committed ≠ 0 →
        ((runs World.next (World.init cfg plat) ops).next op).core.rt.telemetry.peakBytes.toNat
          ≠ (World.init cfg plat).highWater (ops ++ [op]) := by
  obtain ⟨hblank, hinv, hwater, hlast⟩ :=
    World.blank_runs (World.refInv_init cfg plat) (blank_init cfg plat) hops
  refine ⟨?_, fun op b hbook hne hpeak => hne ?_⟩
  · have hpeak : (runs World.next (World.init cfg plat) ops).core.rt.ledger.peakCommitted = 0 :=
      hblank.ledger.peak
    show (runs World.next (World.init cfg plat) ops).core.rt.ledger.peakCommitted.toNat = _
    rw [hpeak, hwater]
    rfl
  · have honce := World.committedOnce_next hinv hblank hbook
    rw [hlast op, RuntimeImpl.bytesCommitted_once honce] at hpeak
    have htwice : b.committed + b.committed = b.committed := by
      rw [← honce.peak]
      exact UInt64.toNat_inj.mp hpeak
    exact UInt64.add_eq_left.mp htwice

/-- A run that commits nothing: a page is wrapped, another one asked for in vain. -/
def barePages : List Op :=
  [.wrapExternal { pointer := 65536, size := 4096 }, .allocate {} { size := 4096 }]

/-- The theorem at work: before the first page is allocated, the peak is right, and then it is
not. -/
theorem peak_correct_until_commit_barePages :
    (runs World.next (World.init {} {}) barePages).core.rt.telemetry.peakBytes.toNat
        = (World.init {} {}).highWater barePages ∧
      ((runs World.next (World.init {} {}) barePages).next
          (.allocate (.findsAt 4096) { size := 4096 })).core.rt.telemetry.peakBytes.toNat
        ≠ (World.init {} {}).highWater
          (barePages ++ [.allocate (.findsAt 4096) { size := 4096 }]) := by
  have hbare : Along World.next World.CommitsNothing (World.init {} {}) barePages := by decide
  have h := peak_correct_until_commit {} {} hbare
  exact ⟨h.1, h.2 _ _ (List.mem_cons_of_mem _ List.mem_cons_self) (by decide)⟩

/-- A page in each of three domains. -/
def threeDomains : List Op :=
  [.allocate (.findsAt 4096) { size := 4096 },
    .allocate (.findsAt 8192) { size := 4096, domain := .sharedHost },
    .allocate (.findsAt 12288) { size := 4096, domain := .mmapStorage }]

/-- The reported peak is too high after the first page, since the commit is counted twice, and too
low after the third, since it is that of one cell. -/
theorem peak_is_of_one_cell :
    (World.init {} {}).highWater (threeDomains.take 1) = 4096 ∧
      (runs World.next (World.init {} {}) (threeDomains.take 1)).core.rt.telemetry.peakBytes = 8192 ∧
      (World.init {} {}).highWater threeDomains = 12288 ∧
      (runs World.next (World.init {} {}) threeDomains).core.rt.telemetry.peakBytes = 8192 := by
  decide

end UnifiedBuffer
