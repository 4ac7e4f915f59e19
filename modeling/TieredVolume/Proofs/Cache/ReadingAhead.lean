import Mathlib.Data.List.Induction
import TieredVolume.Proofs.Cache.Parked
import TieredVolume.Proofs.Cache.Blind

/-!
Reading ahead as a whole. While the first sector of the queue waits for the device, requests come in;
of these the first ten distinct ones are served, oldest first. Serving brings sectors in one after
the other, of which each costs a read just if it is missing, and nothing but that can be seen of it.
-/
namespace TieredVolume

/-! ### What is requested -/

section Queue

variable {q : ReadAhead} {s : Sector}

theorem request_of_mem (hs : s ∈ q.pending) : q.request s = q := by
  simp [ReadAhead.request, hs]

theorem request_of_full (hfull : q.pending.length = readAheadCapacity) : q.request s = q := by
  simp [ReadAhead.request, hfull]

theorem request_of_inactive (hinactive : q.active = false) : q.request s = q := by
  simp [ReadAhead.request, hinactive]

theorem request_of_room (hactive : q.active = true) (hs : s ∉ q.pending)
    (hroom : q.pending.length ≠ readAheadCapacity) :
    q.request s = { q with pending := q.pending ++ [s] } := by
  simp [ReadAhead.request, hactive, hs, hroom]

theorem nodup_request (h : q.pending.Nodup) : (q.request s).pending.Nodup := by
  by_cases hs : s ∈ q.pending
  · rwa [request_of_mem hs]
  · unfold ReadAhead.request
    split
    · exact h
    · split
      · exact h
      · exact List.nodup_append.mpr ⟨h, by simp, by grind⟩

theorem nodup_foldl_request (h : q.pending.Nodup) (l : List Sector) :
    (l.foldl ReadAhead.request q).pending.Nodup := by
  induction l generalizing q with
  | nil => exact h
  | cons s l ih => exact ih (nodup_request h)

/-- Only the first sector leaves a queue in which each waits once. -/
theorem filter_ne_head {rest : List Sector} (h : (s :: rest).Nodup) :
    (s :: rest).filter (· ≠ s) = rest := by
  have hall : ∀ t ∈ rest, t ≠ s := fun t ht hts => (List.nodup_cons.mp h).1 (hts ▸ ht)
  simpa using hall

theorem eraseDups_concat (l : List Sector) (s : Sector) :
    (l ++ [s]).eraseDups = if s ∈ l then l.eraseDups else l.eraseDups ++ [s] := by
  rw [List.eraseDups_append, List.cons_removeAll]
  by_cases hs : s ∈ l
  · simp [hs, List.removeAll]
  · simp [hs, List.removeAll, List.eraseDups_cons]

/-- Of what is requested the first distinct sectors wait, as many as can. -/
theorem foldl_request (l : List Sector) : l.foldl ReadAhead.request { active := true } =
    { pending := l.eraseDups.take readAheadCapacity, active := true } := by
  induction l using List.reverseRecOn with
  | nil => rfl
  | append_singleton l s ih =>
    rw [List.foldl_append, ih, eraseDups_concat, List.foldl_cons, List.foldl_nil]
    by_cases hfull : readAheadCapacity ≤ l.eraseDups.length
    · -- whatever is requested now is dropped
      rw [request_of_full (by simpa using hfull)]
      split
      · rfl
      · rw [List.take_append_of_le_length hfull]
    · have hshort : l.eraseDups.length < readAheadCapacity := Nat.not_le.mp hfull
      rw [List.take_of_length_le hshort.le]
      by_cases hs : s ∈ l
      · rw [if_pos hs, request_of_mem (List.mem_eraseDups.mpr hs), List.take_of_length_le hshort.le]
      · rw [if_neg hs, request_of_room rfl (by simpa using hs) hshort.ne,
          List.take_of_length_le (by simpa using Nat.succ_le_of_lt hshort)]

end Queue

namespace Cache

variable {n blocks misses : Nat} {c c' : Cache n} {s gate : Sector} {requests : List Sector}

/-! ### What is served -/

/-- Requests change nothing but the queue. -/
theorem forM_requestReadAhead (l : List Sector) (c : Cache n) :
    l.forM requestReadAhead c = .ok () (withQueue (l.foldl ReadAhead.request c.readAhead) c) := by
  induction l generalizing c with
  | nil => rfl
  | cons s l ih => exact ih (withQueue (c.readAhead.request s) c)

/-- The queue of a cache is served to its end: the sectors of the list, and no others, are brought
in one after the other, each is taken off the queue then, and so many of them were missing. -/
inductive Serves : Cache n → List Sector → Nat → Cache n → Prop where
  | done {c : Cache n} : c.readAhead.pending = [] → Serves c [] 0 c
  | next {c c₁ c' : Cache n} {s : Sector} {rest served : List Sector} {i : Fin n} {misses : Nat} :
    c.readAhead.pending = s :: rest → prefetch s c = .ok i c₁ →
    Serves (withQueue { c.readAhead with pending := rest } c₁) served misses c' →
    Serves c (s :: served) ((if c.contains s then 0 else 1) + misses) c'

/-- Bringing one sector in. -/
theorem Usable.prefetches (h : Usable blocks c) (hs : s.block < blocks) :
    ∃ i c', prefetch s c = .ok i c' ∧ Usable blocks c' ∧ c'.readAhead = c.readAhead ∧
      (∀ t, c'.current t = c.current t) ∧ BroughtIn (if c.contains s then 0 else 1) c c' := by
  obtain ⟨b, hb⟩ := h.coherent.exists_current (h.blockCount ▸ hs)
  have hyields : Yields never (prefetch s) c _ := prefetch_yields h.coherent h.ready (by simp) hb
  obtain ⟨i, c', hrun, ⟨hc, hf, -⟩, hin⟩ := (hyields.and (prefetch_bringsIn h.ready)).ok_of_never
  have hstep := hf.changes_current.stepped hc fun t ht => h.coherent.current_eq_none ht
  exact ⟨i, c', hrun, h.of_changes hc hf.changes_current, hf.readAhead, hstep.current, hin⟩

theorem Usable.serveRequests (h : Usable blocks c) (hnodup : c.readAhead.pending.Nodup) :
    ∃ misses c', c.readAhead.pending.forM serveRequest c = .ok () c' ∧
      Serves c c.readAhead.pending misses c' ∧ Usable blocks c' ∧
      c'.readAhead = { c.readAhead with pending := [] } ∧
      (∀ t, c'.current t = c.current t) ∧ BroughtIn misses c c' := by
  generalize hl : c.readAhead.pending = l at hnodup ⊢
  induction l generalizing c with
  | nil => exact ⟨0, c, rfl, .done hl, h, by rw [← hl], fun _ => rfl, .refl c⟩
  | cons s rest ih =>
    have hs : s.block < blocks := h.queue s (by simp [hl])
    obtain ⟨i, c₁, hrun, h₁, hq, hcurrent, hin⟩ := h.prefetches hs
    let c₂ := Cache.withQueue { c.readAhead with pending := rest } c₁
    have hserve : serveRequest s c = .ok () c₂ := by
      simp only [serveRequest, bind, EStateM.bind, hrun]
      change EStateM.Result.ok () (Cache.withQueue { c₁.readAhead with
        pending := c₁.readAhead.pending.filter (· ≠ s) } c₁) = _
      rw [hq, hl, filter_ne_head hnodup]
    have h₂ : Usable blocks c₂ := h₁.withQueue fun t ht => h.queue t (by simp [hl, ht])
    obtain ⟨misses, c', hruns, hserves, h', hq', hcurrent', hin'⟩ :=
      ih h₂ rfl (List.nodup_cons.mp hnodup).2
    have hin₂ : BroughtIn _ c c₂ := ⟨hin.reads, hin.dirty⟩
    refine ⟨_, c', ?_, .next hl hrun hserves, h', hq', fun t => ?_, hin₂.trans hin'⟩
    · change (serveRequest s >>= fun _ => rest.forM serveRequest) c = _
      simp only [bind, EStateM.bind, hserve, hruns]
    · exact (hcurrent' t).trans (hcurrent t)

/-! ### The first read waits -/

/-- Reading ahead with the first read held up: `gate`, with which the queue starts, waits for the
device until all requests were made. -/
def heldReadAhead (gate : Sector) (requests : List Sector) : CacheM n Unit := do
  let i ← startRead gate
  requests.forM requestReadAhead
  let _ ← finishRead i gate 0 0
  modify fun c => { c with readAhead :=
    { c.readAhead with pending := c.readAhead.pending.filter (· ≠ gate) } }
  serveReadAhead

/-- It makes no difference whether the first read waits for the device while requests are made. -/
theorem Usable.heldReadAhead_eq (h : Usable blocks c) (hg : gate.block < blocks)
    (hmiss : c.contains gate = false) {q : ReadAhead} {rest : List Sector}
    (hq : requests.foldl ReadAhead.request c.readAhead = q) (hpending : q.pending = gate :: rest)
    (hnodup : q.pending.Nodup) :
    heldReadAhead gate requests c = serveReadAhead (Cache.withQueue q c) := by
  obtain ⟨i, c₁, c₂, hstart, hqueue, hprefetch, hfinish⟩ := h.halves hg hmiss
  have hprefetch' : prefetch gate (Cache.withQueue q c) = .ok i (Cache.withQueue q c₂) := by
    have hblind := prefetch_blind (q := fun _ => q) Device.unnoticed_id gate c
    rw [hprefetch] at hblind
    exact hblind
  have hfinish' : finishRead i gate 0 0 (Cache.withQueue q c₁) =
      .ok (Block.slice (c₂.slot i).data 0 0) (Cache.withQueue q c₂) := by
    have hblind := finishRead_blind (q := fun _ => q) Device.unnoticed_id i gate 0 0 c₁
    rw [hfinish] at hblind
    exact hblind
  have hheld : heldReadAhead gate requests c = serveReadAhead (Cache.withQueue
      { q with pending := q.pending.filter (· ≠ gate) } c₂) := by
    simp only [heldReadAhead, bind, EStateM.bind, hstart, forM_requestReadAhead, hqueue, hq,
      hfinish']
    rfl
  have hserve : serveReadAhead (Cache.withQueue q c) =
      (do serveRequest gate; rest.forM serveRequest) (Cache.withQueue q c) := by
    change q.pending.forM serveRequest (Cache.withQueue q c) = _
    rw [hpending]
    rfl
  have hrest : q.pending.filter (· ≠ gate) = rest := by
    rw [hpending] at hnodup ⊢
    exact filter_ne_head hnodup
  -- both have `rest` left to serve, from the cache in which `gate` was brought in and taken off
  have hfirst : serveRequest gate (Cache.withQueue q c) = .ok () (Cache.withQueue
      { q with pending := q.pending.filter (· ≠ gate) } c₂) := by
    simp only [serveRequest, bind, EStateM.bind, hprefetch']
    rfl
  rw [hheld, hserve]
  simp only [bind, EStateM.bind, hfirst]
  change (q.pending.filter (· ≠ gate)).forM serveRequest _ = rest.forM serveRequest _
  rw [hrest]

/-- Reading ahead while the task waits with `gate`, which is not cached. Of `gate` and what is
requested then the first ten distinct sectors are served in order, each leaving the queue when it
was brought in. Afterwards all current contents are what they were; what was dirty and is no more
has reached the device; nothing has become dirty; and each sector that was missing cost one read.
Requests that nobody would serve have no effect at all. -/
theorem Usable.reads_ahead (h : Usable blocks c)
    (hqueue : c.readAhead = { pending := [gate], active := true })
    (hmiss : c.contains gate = false) (hfits : ∀ s ∈ gate :: requests, s.block < blocks) :
    (∃ c₁ misses c', requests.forM requestReadAhead c = .ok () c₁ ∧
      c₁.readAhead.pending = (gate :: requests).eraseDups.take readAheadCapacity ∧
      serveReadAhead c₁ = .ok () c' ∧ heldReadAhead gate requests c = .ok () c' ∧
      Serves c₁ c₁.readAhead.pending misses c' ∧ c'.readAhead = { active := true } ∧
      (∀ t, c'.current t = c.current t) ∧
      (∀ t, c.Dirty t → ¬ c'.Dirty t → c'.device.block? t.block = c.current t) ∧
      (∀ j, (c'.slot j).dirty = true →
        (c.slot j).dirty = true ∧ (c'.slot j).sector = (c.slot j).sector) ∧
      (∀ s ∈ c₁.readAhead.pending, c'.Dirty s → c.Dirty s) ∧
      c.device.Reads misses c'.device) ∧
    ∀ (e : Cache n) s, e.readAhead.active = false → requestReadAhead s e = .ok () e := by
  refine ⟨?_, fun e s hinactive => ?_⟩
  · obtain ⟨q, hq⟩ : ∃ q, requests.foldl ReadAhead.request c.readAhead = q := ⟨_, rfl⟩
    have hserved : q =
        { pending := (gate :: requests).eraseDups.take readAheadCapacity, active := true } := by
      rw [← foldl_request, ← hq, hqueue]
      rfl
    have hnodup : q.pending.Nodup := by
      rw [← hq]
      exact nodup_foldl_request (by simp [hqueue]) requests
    have hfirst : ∃ rest, q.pending = gate :: rest :=
      ⟨_, by rw [hserved, List.eraseDups_cons, readAheadCapacity, List.take_succ_cons]⟩
    obtain ⟨rest, hpending⟩ := hfirst
    have husable : Usable blocks (Cache.withQueue q c) := h.withQueue fun s hs => by
      rw [hserved] at hs
      exact hfits s (List.mem_eraseDups.mp (List.mem_of_mem_take hs))
    obtain ⟨misses, c', hrun, hserves, husable', hq', hcurrent, hin⟩ :=
      husable.serveRequests hnodup
    have hrequests := forM_requestReadAhead requests c
    rw [hq] at hrequests
    have hheld := h.heldReadAhead_eq (hfits gate (by simp)) hmiss hq hpending hnodup
    refine ⟨Cache.withQueue q c, misses, c', hrequests, by rw [hserved]; rfl, hrun,
      hheld.trans hrun, hserves, hq'.trans (by rw [hserved]; rfl), hcurrent, fun t _ ht => ?_,
      hin.dirty, fun s _ hs => ?_, hin.reads⟩
    · rw [← husable'.coherent.current_eq_block? ht]
      exact hcurrent t
    · obtain ⟨j, hj, hd⟩ := hs
      have hbefore := hin.dirty j hd
      exact ⟨j, hbefore.2.symm.trans hj, hbefore.1⟩
  · change EStateM.Result.ok () (Cache.withQueue (e.readAhead.request s) e) = _
    rw [request_of_inactive hinactive]
    rfl

/-- On a cache of one slot over three blank blocks; sector 1, which waits, is requested once more. -/
theorem Usable.reads_ahead_blank : ∃ c : Cache 1,
    Cache.fresh 1 (.memory (MemoryDisk.blank 3)) = .ok c ∧ ∃ c₁ misses c',
      c₁.readAhead.pending = [.ofNat 1, .ofNat 0, .ofNat 2] ∧
      Serves c₁ [.ofNat 1, .ofNat 0, .ofNat 2] misses c' ∧
      heldReadAhead (.ofNat 1) [.ofNat 0, .ofNat 1, .ofNat 2]
        (Cache.withQueue { pending := [.ofNat 1], active := true } c) = .ok () c' := by
  have hsound : (Device.memory (MemoryDisk.blank 3)).Sound := trivial
  refine ⟨_, rfl, ?_⟩
  have husable := (usable_fresh (n := 1) hsound rfl).1.withQueue
    (q := { pending := [.ofNat 1], active := true }) (by decide)
  have hmiss := contains_fresh (n := 1) hsound rfl (.ofNat 1)
  have hfits : ∀ s ∈ [Sector.ofNat 1, .ofNat 0, .ofNat 1, .ofNat 2], s.block < 3 := by decide
  obtain ⟨⟨c₁, misses, c', -, hpending, -, hheld, hserves, -⟩, -⟩ :=
    husable.reads_ahead rfl hmiss hfits
  have hlist : c₁.readAhead.pending = [.ofNat 1, .ofNat 0, .ofNat 2] := by
    rw [hpending]
    decide
  exact ⟨c₁, misses, c', hlist, hlist ▸ hserves, hheld⟩

end Cache

end TieredVolume
