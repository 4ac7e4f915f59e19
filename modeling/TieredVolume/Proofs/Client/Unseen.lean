import TieredVolume.Proofs.Alike.Calls

/-!
What a client never sees. Everything that it learns from a fresh volume, and everything that is on
the device afterwards in sectors that are in use, is the same whatever the device held before, however
large the cache is, and whatever is written back or brought in while nobody waits.
-/
namespace TieredVolume

variable {m n : Nat} {v : Volume m} {u : Volume n} {w : View} {held : List Handle}
  {request : Request} {requests requests' : List Request} {device device' : Device}
  {background background' : Bool}

/-- What a client learns from a request: how it is answered, and how many sectors are free then. -/
structure Report where
  reply : Except Refusal Reply
  free : Nat

/-- What is found on the device of every sector in use, or the fault that came before. -/
abbrev Survey := Except Fault (List (Nat × Option Block))

namespace Volume

/-- What the device holds in the sectors in use once everything is written to it. -/
def survey (v : Volume n) : Survey :=
  match Cache.flushAll v.cache with
  | .ok () c => .ok (v.map.usedSectors.map fun i => (i, c.device.block? i))
  | .error e _ => .error e

/-- What is reported of some requests, and what is found on the device after the last of them.
Nothing is reported of what goes on in the background, and no request is made after a fault. -/
def serve : List Request → Volume n → List Report × Survey
  | [], v => ([], v.survey)
  | request :: rest, v =>
    match request.attempt.run v with
    | .error e _ => ([], .error e)
    | .ok reply v' =>
      let (reports, survey) := serve rest v'
      (if request.isIdle then reports else { reply, free := v'.map.freeCount } :: reports, survey)

/-- A device is formatted and some requests are made. -/
def observe (n : Nat) (device : Device) (background : Bool) (requests : List Request) :
    Except Fault (Except Refusal (List Report × Survey)) := do
  return (← fresh n device background).map (serve requests)

/-- Every request is one of a careful client, with the handles that it holds by then. -/
def CarefulFrom : List Request → List Handle → Volume n → Prop
  | [], _, _ => True
  | request :: rest, held, v => request.Careful v.map.total v.shelf held ∧
    ∀ reply v', request.attempt.run v = .ok reply v' →
      CarefulFrom rest (request.handles held reply) v'

/-- A flush never ends in a fault, and puts on the device what is read above the cache. -/
theorem Shows.survey_eq_ok (h : v.Shows w) : v.survey =
    .ok (v.map.usedSectors.map fun i => (i, v.cache.current (Sector.ofNat i))) := by
  have hflush : Yields never Cache.flushAll v.cache _ := Cache.flushAll_yields h.coherent
  obtain ⟨_, c, hrun, hc, hf, hclean⟩ := hflush.ok_of_never
  simp only [survey, hrun]
  refine congrArg Except.ok (List.map_congr_left fun i hi => ?_)
  have hlt : i < v.map.total := List.mem_range.mp (List.mem_filter.mp hi).1
  have hblock : (Sector.ofNat i).block = i := Sector.block_ofNat (hlt.trans h.sound.limit)
  rw [← hf.current _ (by rw [h.sound.cache.blockCount, hblock]; exact hlt),
    hc.current_eq_block? (hclean _), hblock]

namespace LooksLike

variable (h : v.LooksLike u)

include h

theorem map_eq : u.map = v.map := by
  obtain ⟨w, hv, hu⟩ := h
  exact hv.map_eq hu

/-- Sectors in use have the same contents. -/
theorem current_eq {s : Sector} (hs : v.view.used s = true) : u.cache.current s = v.cache.current s := by
  obtain ⟨w, hv, hu⟩ := id h
  have hs' : w.used s = true := hv.used ▸ hs
  by_cases hmap : IsMap w.total s
  · have hwritten : v.map.Written u.cache := h.map_eq ▸ hu.written
    have htotal : w.total = v.map.total := hv.total.symm
    exact hv.written.current_eq hwritten hv.sound.limit (htotal ▸ hmap)
  · rw [hv.current ⟨hs', hmap⟩, hu.current ⟨hs', hmap⟩]

theorem survey_eq : u.survey = v.survey := by
  obtain ⟨w, hv, hu⟩ := id h
  rw [hv.survey_eq_ok, hu.survey_eq_ok, h.map_eq]
  refine congrArg Except.ok (List.map_congr_left fun i hi => ?_)
  obtain ⟨hi, hbit⟩ := List.mem_filter.mp hi
  have hlt : i < v.map.total := List.mem_range.mp hi
  have hblock : (Sector.ofNat i).block = i := Sector.block_ofNat (hlt.trans hv.sound.limit)
  have hs : v.view.used (Sector.ofNat i) = true := by
    simp only [view, hblock, hbit, decide_eq_true hlt, Bool.and_true]
  rw [h.current_eq hs]

end LooksLike

/-! ### Requests -/

/-- A request in the background is made, and nothing of it is seen. -/
theorem idle_run (hu : u.Shows w) (hidle : request.isIdle = true)
    (hsector : ∀ s, request = .prefetch s → s.block < w.total) :
    ∃ reply, ∃ u' : Volume n, request.attempt.run u = .ok reply u' ∧ u'.Shows w := by
  obtain ⟨_, hquiet⟩ := Request.idle_does request hidle hsector
  obtain ⟨reply, u', hrun, w', hu', hpost⟩ := (hquiet u hu).ok_of_never
  rcases reply with why | reply
  · exact hpost.elim
  · exact ⟨_, u', hrun, hpost.2 ▸ hu'⟩

theorem serve_idle (hu : u.Shows w) {idle : List Request} (rest : List Request)
    (hidle : ∀ request ∈ idle, request.isIdle = true)
    (hsector : ∀ s, .prefetch s ∈ idle → s.block < w.total) :
    ∃ u' : Volume n, u'.Shows w ∧ serve (idle ++ rest) u = serve rest u' := by
  induction idle generalizing u with
  | nil => exact ⟨u, hu, rfl⟩
  | cons request idle ih =>
    have hfirst := hidle request List.mem_cons_self
    obtain ⟨reply, u₁, hrun, hu₁⟩ := idle_run hu hfirst fun s hs =>
      hsector s (hs ▸ List.mem_cons_self)
    obtain ⟨u', hu', hserve⟩ := ih hu₁ (fun r hr => hidle r (List.mem_cons_of_mem _ hr))
      fun s hs => hsector s (List.mem_cons_of_mem _ hs)
    refine ⟨u', hu', ?_⟩
    rw [List.cons_append, serve, hrun]
    simp only [hfirst, if_true, hserve]

/-- Volumes that look the same serve the same requests alike, whatever is done in the background. -/
theorem serve_eq (hlook : v.LooksLike u) (hv : Stores v.map.total v v.shelf)
    (hS : Stands v.shelf held) (hcareful : CarefulFrom requests held v)
    (hsame : requests'.filter (!·.isIdle) = requests.filter (!·.isIdle))
    (hsector : ∀ s, .prefetch s ∈ requests' → s.block < v.map.total) :
    serve requests' u = serve requests v := by
  -- what goes on in the background of either run is passed over, the other requests are made at once
  induction requests generalizing v u held requests' with
  | nil =>
    obtain ⟨w, hvw, huw⟩ := hlook
    obtain ⟨u', hu', hserve⟩ := serve_idle huw []
      (fun r hr => by simpa using List.filter_eq_nil_iff.mp hsame r hr)
      fun s hs => hvw.total ▸ hsector s hs
    rw [List.append_nil] at hserve
    rw [hserve, serve, serve, LooksLike.survey_eq ⟨w, hvw, hu'⟩]
  | cons request rest ih =>
    obtain ⟨hrequest, hrest⟩ := hcareful
    cases hidle : request.isIdle with
    | true =>
      obtain ⟨w, hvw, huw⟩ := hlook
      obtain ⟨reply, v₁, hrun, hv₁⟩ := idle_run hvw hidle fun s hs => by
        subst hs
        exact hvw.total ▸ hrequest
      obtain ⟨htotal, hv', hS'⟩ := stands_request hv hS hrequest hrun
      have hserve := ih ⟨w, hv₁, huw⟩ hv' hS' (hrest reply v₁ hrun)
        (by simpa [List.filter_cons, hidle] using hsame) fun s hs => htotal ▸ hsector s hs
      simp only [serve, hrun, hidle, if_true, hserve]
    | false =>
      have hcons : (request :: rest).filter (!·.isIdle) = request :: rest.filter (!·.isIdle) := by
        simp [hidle]
      obtain ⟨idle, rest', rfl, hall, -, hsame'⟩ := List.filter_eq_cons_iff.mp (hsame.trans hcons)
      obtain ⟨w₀, hvw₀, hw₀⟩ := id hv
      obtain ⟨u₁, hu₁, hserve⟩ := serve_idle (hlook.shows hvw₀) (request :: rest')
        (fun r hr => by simpa using hall r hr) fun s hs =>
          hvw₀.total ▸ hsector s (List.mem_append_left _ hs)
      rw [hserve]
      rcases (hS.request_alike hw₀ hrequest m n v u₁ hvw₀ hu₁).met with
        ⟨e, v₁, u₂, hrun, hrun'⟩ | ⟨reply, v₁, u₂, hrun, hrun', hlook'⟩
      · simp only [serve, hrun, hrun']
      · obtain ⟨htotal, hv', hS'⟩ := stands_request hv hS hrequest hrun
        have hrest := ih hlook' hv' hS' (hrest reply v₁ hrun) hsame' fun s hs =>
          htotal ▸ hsector s (List.mem_append_right _ (List.mem_cons_of_mem _ hs))
        simp only [serve, hrun, hrun', hrest, hlook'.map_eq]

/-! ### Formatting -/

/-- What the header of the root held before makes no difference once the root is made. -/
theorem makeRoot_inStep {total : Nat} {b : Block} (hw : Keeps total w .unmade) :
    InStep (fun n => (makeRoot (n := n)).run) w (w.put rootSector b) fun
      | .ok _, w', w₂' => w' = w₂'
      | .error _, _, _ => True := by
  refine InStep.bind (InStep.always_bind (InStep.ofExcept fun length _ => Inode.create_inStep hw rfl)) ?_
    fun _ _ _ _ => trivial
  rintro ⟨⟩ w' _ rfl
  exact InStep.always (Alike.of_move flushAll_does)

/-- Two devices of one size that are formatted look the same. -/
theorem formatWith_looksLike (hm : 0 < m) (hn : 0 < n) (hd : device.Sound) (hd' : device'.Sound)
    (hcount : device'.blockCount = device.blockCount) (hlimit : device.blockCount < sectorLimit)
    (hroom : FreeMap.reserved device.blockCount < device.blockCount) :
    ∃ (v : Volume m) (u : Volume n), formatWith m device = .ok (.ok v) ∧
      formatWith n device' = .ok (.ok u) ∧ v.LooksLike u ∧ Stores device.blockCount v .blank := by
  obtain ⟨v₀, c, hassemble, hv₀⟩ := assemble_format hm hd hlimit hroom
  obtain ⟨u₀, c', hassemble', hu₀⟩ := assemble_format hn hd' (hcount ▸ hlimit) (hcount ▸ hroom)
  rw [hcount] at hu₀
  have hw := keeps_unwritten c hroom
  -- the views differ in what the header of the root holds, and nowhere else
  have hother : u₀.Shows ((unwritten c device.blockCount).view.put rootSector
      ((unwritten c' device.blockCount).view.block rootSector)) :=
    hu₀.congr rfl rfl rfl rfl fun s hs => by
      obtain rfl : s = rootSector := ((keeps_unwritten c' hroom).forest.owned s hs).resolve_right
        fun ⟨_, hh, _⟩ => hh
      simp only [View.put, Function.update_self]
  have hagree : Agree _ (makeRoot.run v₀) (makeRoot.run u₀) := makeRoot_inStep hw m n v₀ u₀ hv₀ hother
  have hroot : Yields never makeRoot.run v₀ _ := makeRoot_does hw (not_full_unwritten c hlimit hroom) v₀ hv₀
  obtain ⟨answer, v, hrun, w, hv, hpost⟩ := hroot.ok_of_never
  rcases answer with why | ⟨⟩
  · exact hpost.elim
  generalize hrun' : makeRoot.run u₀ = r at hagree
  rw [hrun] at hagree
  cases hagree with
  | ok hvw huw hmet =>
    refine ⟨_, _, ?_, ?_, ⟨_, hvw, hmet ▸ huw⟩, w, hv, hpost⟩
    · simp only [formatWith, hassemble, bind, Except.bind, hrun, pure, Except.pure]
    · simp only [formatWith, hassemble', bind, Except.bind, hrun', pure, Except.pure]

theorem LooksLike.withBackground (h : v.LooksLike u) (background background' : Bool) :
    (Volume.withBackground background v).LooksLike (Volume.withBackground background' u) := by
  obtain ⟨w, hv, hu⟩ := h
  exact ⟨w, hv.withBackground background, hu.withBackground background'⟩

/-- What is observed of a device that is formatted depends on its size and on the requests alone: not
on what was on it before, on the size of the cache, or on what goes on in the background. -/
theorem contents_unseen (hm : 0 < m) (hn : 0 < n) (hd : device.Sound) (hd' : device'.Sound)
    (hcount : device'.blockCount = device.blockCount) (hlimit : device.blockCount < sectorLimit)
    (hcareful : ∀ v, fresh m device background = .ok (.ok v) → CarefulFrom requests [] v)
    (hsame : requests'.filter (!·.isIdle) = requests.filter (!·.isIdle))
    (hsector : ∀ s, .prefetch s ∈ requests' → s.block < device.blockCount) :
    observe n device' background' requests' = observe m device background requests := by
  by_cases hroom : FreeMap.reserved device.blockCount < device.blockCount
  · obtain ⟨v, u, hformat, hformat', hlook, w, hv, hw⟩ :=
      formatWith_looksLike hm hn hd hd' hcount hlimit hroom
    have hfresh : fresh m device background = .ok (.ok (v.withBackground background)) := by
      rw [fresh, hformat]
      rfl
    have hfresh' : fresh n device' background' = .ok (.ok (u.withBackground background')) := by
      rw [fresh, hformat']
      rfl
    have hstores : Stores device.blockCount (v.withBackground background) .blank :=
      ⟨w, hv.withBackground background, hw⟩
    have htotal := hstores.total_eq
    have hl := hstores.like_shelf settled_blank
    have hserve := serve_eq (hlook.withBackground background background')
      (htotal.symm ▸ hstores.like hl) (stands_blank.like hl) (hcareful _ hfresh) hsame
      (htotal.symm ▸ hsector)
    simp only [observe, hfresh, hfresh', bind, Except.bind, Except.map, hserve]
  · have hsmall : formatWith m device = _ := formatWith_eq_error hm hroom
    have hsmall' : formatWith n device' = _ := formatWith_eq_error hn (hcount ▸ hroom)
    simp only [observe, fresh, hsmall, hsmall', hcount, bind, Except.bind]

/-- A file is made on a blank device, and on one that is full of ones and has a larger cache. -/
theorem contents_unseen_filled :
    observe 3 (.memory { blocks := Array.replicate 8 (Vector.replicate 512 255) }) true
      [.prefetch ⟨5⟩, .call .root, .call .flush, .call (.create "/a" 600 ⟨rootSector, true, 0⟩),
        .call (.openFile "/a" ⟨rootSector, true, 0⟩), .prefetch ⟨7⟩] =
    observe 1 (.memory (MemoryDisk.blank 8)) false
      [.call .root, .call (.create "/a" 600 ⟨rootSector, true, 0⟩),
        .call (.openFile "/a" ⟨rootSector, true, 0⟩)] := by
  refine contents_unseen (by decide) (by decide) trivial trivial rfl (by decide) (fun v _ => ?_) rfl ?_
  · refine ⟨⟨trivial, nofun⟩, fun reply v₁ hrun => ?_⟩
    have hroot : (Request.call .root).attempt.run v =
        .ok (.ok (.answer (.opened ⟨rootSector, true, 0⟩))) _ := rfl
    rw [hroot] at hrun
    cases hrun
    refine ⟨⟨⟨List.mem_cons_self, rfl⟩, nofun⟩, fun reply v₂ _ => ?_⟩
    -- whatever the creation answered, the root is still held
    have hheld : ⟨rootSector, true, 0⟩ ∈ (Request.call (.create "/a" 600 ⟨rootSector, true, 0⟩)).handles
        [⟨rootSector, true, 0⟩] reply := by
      rcases reply with why | answer | reading | _
      · exact List.mem_cons_self
      · cases answer <;> simp [Request.handles, Call.handles]
      · exact List.mem_cons_self
      · exact List.mem_cons_self
    exact ⟨⟨⟨hheld, rfl⟩, nofun⟩, fun _ _ _ => trivial⟩
  · intro s hs
    simp only [List.mem_cons, Request.prefetch.injEq, reduceCtorEq, List.not_mem_nil, false_or,
      or_false] at hs
    rcases hs with rfl | rfl <;> decide

end Volume
end TieredVolume
