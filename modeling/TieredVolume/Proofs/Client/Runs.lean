import TieredVolume.Proofs.Client.Effects

/-!
Runs of a client. Between two calls the volume has the shelf that everyone sees, and the handles
stand on it; so each call answers and does what its effect says, with the shelf before and after.
-/
namespace TieredVolume

variable {total : Nat} {S S' : Shelf} {handles : List Handle} {call : Call}
  {answer : Except Refusal Answer} {p : List String} {s : Sector} {n : Nat} {v : Volume n}

/-- A handle of what was found is one more. -/
theorem Stands.opens_found {isDir : Bool} (hS : Stands S handles) (hp : S.tree p = some (s, isDir))
    (h : Opens S isDir (.ok s) answer S') :
    answer = .ok (.opened ⟨s, isDir, 0⟩) ∧ Stands S' (⟨s, isDir, 0⟩ :: handles) := by
  obtain ⟨hanswer, rfl⟩ := h
  exact ⟨hanswer, hS.opens_place hp⟩

/-- What a call leaves stands again, with the handles that the client then holds. -/
theorem Stands.step (hS : Stands S handles) (hcareful : call.Careful S handles)
    (heffect : call.Effect S answer S') : Stands S' (call.handles handles answer) := by
  have hcall := hcareful.1
  cases call with
  | root =>
    obtain ⟨rfl, hstands⟩ := hS.opens_found (p := []) rfl heffect
    exact hstands
  | create path size cwd =>
    rcases Makes.cases heffect with ⟨rfl, p, hcreated⟩ | ⟨⟨why, rfl⟩, rfl⟩
    · exact hS.creates hcreated
    · exact hS
  | createDirectory path cwd =>
    rcases Makes.cases heffect with ⟨rfl, p, hcreated⟩ | ⟨⟨why, rfl⟩, rfl⟩
    · exact hS.creates hcreated
    · exact hS
  | openFile path cwd =>
    obtain ⟨c, -, hopened⟩ := heffect
    cases hfound : S.tree.fileAt c path with
    | error why =>
      rw [hfound] at hopened
      obtain ⟨rfl, rfl⟩ := hopened
      exact hS
    | ok s =>
      rw [hfound] at hopened
      obtain ⟨q, hq⟩ := Tree.exists_place_of_fileAt hfound
      obtain ⟨rfl, hstands⟩ := hS.opens_found hq hopened
      exact hstands
  | openDirectory path cwd =>
    obtain ⟨c, -, hopened⟩ := heffect
    cases hfound : S.tree.directoryAt c path with
    | error why =>
      rw [hfound] at hopened
      obtain ⟨rfl, rfl⟩ := hopened
      exact hS
    | ok s =>
      rw [hfound] at hopened
      obtain ⟨q, hq⟩ := Tree.exists_place_of_directoryAt hfound
      obtain ⟨rfl, hstands⟩ := hS.opens_found hq hopened
      exact hstands
  | resolve path cwd =>
    obtain ⟨c, -, hopened⟩ := heffect
    cases hfound : S.tree.find c path with
    | none =>
      rw [hfound] at hopened
      obtain ⟨rfl, rfl⟩ := hopened
      exact hS
    | some found =>
      rw [hfound] at hopened
      obtain ⟨q, hq⟩ := Tree.exists_place hfound
      obtain ⟨rfl, hstands⟩ := hS.opens_found hq hopened
      exact hstands
  | remove path cwd =>
    obtain ⟨c, hc, hremoved⟩ := heffect
    cases hremoval : S.tree.removal S.InUse c path with
    | error why =>
      rw [hremoval] at hremoved
      obtain ⟨rfl, rfl⟩ := hremoved
      exact hS
    | ok p =>
      rw [hremoval] at hremoved
      obtain ⟨rfl, hremoved⟩ := hremoved
      exact hS.removes hremoved
        (hcareful.2 path cwd rfl c p hc (Tree.placeOf_of_removal hremoval))
  | readNext dir =>
    obtain ⟨⟨name, cursor, rfl⟩, rfl⟩ := heffect
    exact hS.reads hcall.1 cursor
  | readAt file offset count =>
    obtain ⟨rfl, rfl⟩ := heffect
    exact hS
  | writeAt file offset bytes =>
    change Writes S file.sector offset bytes answer S' at heffect
    unfold Writes at heffect
    split at heffect
    · obtain ⟨rfl, rfl⟩ := heffect
      exact hS
    · rcases heffect with ⟨rfl, rfl⟩ | ⟨rfl, rfl⟩
      · exact hS.writes hcall.1 hcall.2
      · exact hS
  | grow file size offset =>
    rcases heffect with ⟨rfl, rfl⟩ | ⟨rfl, rfl⟩
    · exact hS.writes hcall.1 hcall.2
    · exact hS
  | allocateAt file offset =>
    obtain ⟨⟨s, rfl⟩ | rfl, rfl⟩ := heffect
    · exact hS
    · exact hS
  | length file =>
    obtain ⟨rfl, rfl⟩ := heffect
    exact hS
  | mark m handle =>
    obtain ⟨rfl, nd, hn, rfl⟩ := heffect
    exact hS.marks hcall.1 hcall.2 hn
  | clone handle =>
    obtain ⟨rfl, rfl⟩ := heffect
    exact hS.clones hcall
  | close handle =>
    obtain ⟨rfl, rfl⟩ := heffect
    exact hS.closes hcall
  | shutdown | flush | readAhead =>
    obtain ⟨rfl, rfl⟩ := heffect
    exact hS

/-! ### The shelf that everyone sees -/

/-- A settled shelf that is the same, up to files of inodes that there are not. -/
theorem Settled.like (hS : Settled S) (hl : S.Like S') : Settled S' ∧ S'.tree = S.tree := by
  have hfile : ∀ p s b, S.tree p = some (s, b) → S'.file s = S.file s := fun p s b hp =>
    (hl.file s (hS.linked p s b hp)).symm
  have hbytes : ∀ p d, treeOf S.file p = some (d, true) →
      (S'.file d).bytes = (S.file d).bytes := fun p d hp => by rw [hfile p d true hp]
  have htree : S'.tree = S.tree := treeOf_congr hbytes
  refine ⟨⟨hS.rooted.congr hbytes fun p s b hp => by rw [hfile p s b hp], ?_, ?_, ?_, ?_, ?_, ?_,
    ?_⟩, htree⟩
  · rw [← hl.spare]
    exact hS.spare
  · rw [Shelf.Counted, ← hl.node]
    exact hS.counted
  · rw [← hl.node, ← hl.live]
    exact hS.opened
  · rw [htree, ← hl.live]
    exact hS.linked
  · rw [htree, ← hl.node]
    exact hS.standing
  · rw [htree, ← hl.node]
    exact hS.writable
  · rw [htree, ← hl.node, ← hl.live]
    exact hS.held

theorem Stands.like (hS : Stands S handles) (hl : S.Like S') : Stands S' handles := by
  obtain ⟨hsettled, htree⟩ := hS.toSettled.like hl
  refine ⟨hsettled, fun s => ?_, ?_, ?_⟩
  · rw [Shelf.openers, ← hl.node]
    exact hS.openers s
  · rw [htree]
    exact hS.directory
  · rw [htree]
    exact hS.file

theorem Stores.total_eq (hv : Stores total v S) : v.map.total = total := by
  obtain ⟨w, hvw, hw⟩ := hv
  exact hvw.total.trans hw.total

theorem Stores.like_shelf (hv : Stores total v S) (hS : Settled S) : S.Like v.shelf := by
  obtain ⟨-, hw⟩ := hv.keeps_view
  have htree : treeOf v.view.file = S.tree := treeOf_congr fun p d hp => by
    rw [hw.file d (hS.linked p d true hp)]
  refine ⟨Set.ext fun s => ?_, hS.spare, hw.node.symm, fun h hh => (hw.file h hh).symm⟩
  change s ∈ S.live ↔ (∃ p b, treeOf v.view.file p = some (s, b)) ∨
    ∃ nd, v.view.node s = some nd ∧ nd.removed = true ∧ 0 < nd.openers
  rw [htree, hw.node]
  refine ⟨fun hs => (hS.held s hs).imp_right fun ⟨nd, hn, hremoved⟩ =>
    ⟨nd, hn, hremoved, hS.counted s nd hn⟩, ?_⟩
  rintro (⟨p, b, hp⟩ | ⟨nd, hn, -⟩)
  · exact hS.linked p s b hp
  · exact hS.opened s nd hn

/-! ### Runs -/

theorem stands_blank : Stands .blank [] :=
  ⟨settled_blank, fun _ => rfl, nofun, nofun⟩

/-- What is allowed is careful: the root is never removed, and no file is held as a directory. -/
theorem Stands.careful (hS : Stands S handles) (hcall : call.Allowed S handles) :
    call.Careful S handles := by
  refine ⟨?_, ?_⟩
  · cases call with
    | create | remove | writeAt | grow => exact ⟨hcall.1, hcall.2.1⟩
    | readAt | length | allocateAt => exact hcall.1
    | _ => exact hcall
  · rintro path cwd rfl c p - hp h hh hplace
    have hdir : h.isDir = true := by
      by_contra hfile
      exact hS.file h hh (Bool.eq_false_iff.mpr hfile) p hplace
    refine hcall.2.2 h hh hdir fun hroot => ?_
    obtain ⟨name, q, rfl⟩ := Tree.exists_name_of_placeOf hp
    have hempty := hS.rooted.unique (name :: q) [] h.sector true true hplace (by rw [hroot]; rfl)
    cases hempty

theorem Call.Allowed.bounded (hcall : call.Allowed S handles) : call.Bounded := by
  cases call with
  | create | writeAt | grow => exact hcall.2.2
  | _ => trivial

/-- A careful call on a volume that has a shelf: it answers and does what its effect says, and the
volume has the shelf that everyone sees. -/
theorem Stands.careful_yields (hS : Stands S handles) (hv : Stores total v S)
    (hcall : call.Careful S handles) :
    Yields (fun _ => ¬ (call.Bounded ∧ call.Fits S)) call.attempt.run v fun answer v' =>
      ∃ S', call.Effect S answer S' ∧ Stands S' (call.handles handles answer) ∧
        S'.Like v'.shelf ∧ Stores total v' v'.shelf := by
  refine (hS.attempt_tries hcall.1 v hv).mono ?_
  rintro answer v' ⟨S', hv', hpost⟩
  have heffect : call.Effect S answer S' := by
    cases answer with
    | ok a => exact hpost
    | error why => exact hpost
  have hS' := hS.step hcall heffect
  have hl := hv'.like_shelf hS'.toSettled
  exact ⟨S', heffect, hS', hl, hv'.like hl⟩

/-- An allowed call ends in a fault only if it does not fit. -/
theorem Stands.call_yields (hS : Stands S handles) (hv : Stores total v S)
    (hcall : call.Allowed S handles) :
    Yields (fun _ => ¬ call.Fits S) call.attempt.run v fun answer v' =>
      ∃ S', call.Effect S answer S' ∧ Stands S' (call.handles handles answer) ∧
        S'.Like v'.shelf ∧ Stores total v' v'.shelf :=
  (hS.careful_yields hv (hS.careful hcall)).mono_faults fun _ hnot hfits =>
    hnot ⟨hcall.bounded, hfits⟩

namespace Client

variable {c : Client}

/-- Between two calls the volume has its shelf, and the handles stand on it. -/
theorem Comes.stands (h : Comes Call.Careful c) :
    Stores c.volume.map.total c.volume c.shelf ∧ Stands c.shelf c.handles := by
  induction h with
  | mount hd hlimit hformat hrun =>
    have hv := Volume.stores_of_mount hd hlimit hformat hrun
    have hl := hv.like_shelf settled_blank
    exact ⟨hv.total_eq ▸ hv.like hl, stands_blank.like hl⟩
  | call _ hcareful hrun ih =>
    obtain ⟨hv, hS⟩ := ih
    obtain ⟨S', -, hS', hl, hv'⟩ := (hS.careful_yields hv hcareful).of_ok hrun
    exact ⟨hv'.total_eq ▸ hv', hS'.like hl⟩

theorem Reached.comes (h : Reached c) : Comes Call.Careful c := by
  induction h with
  | mount hd hlimit hformat hrun => exact .mount hd hlimit hformat hrun
  | call _ hallowed hrun ih => exact ih.call (ih.stands.2.careful hallowed) hrun

theorem Comes.reached {kind : Shelf → List Handle → Call → Prop} (h : Comes kind c)
    (hkind : ∀ S held call, kind S held call → call.Allowed S held) : Reached c := by
  induction h with
  | mount hd hlimit hformat hrun => exact .mount hd hlimit hformat hrun
  | call _ hcall hrun ih => exact ih.call (hkind _ _ _ hcall) hrun

theorem Reached.stands (h : Reached c) :
    Stores c.volume.map.total c.volume c.shelf ∧ Stands c.shelf c.handles :=
  h.comes.stands

/-- A client of a fresh volume that asked for the root. -/
theorem exists_reached_root : ∃ c : Client, Reached c ∧ c.handles = [⟨rootSector, true, 0⟩] ∧
    (Shelf.blank.opened rootSector).Like c.shelf := by
  have hsound : (Device.memory (MemoryDisk.blank 8)).Sound := trivial
  obtain ⟨v, hmount, hv⟩ : ∃ v, Volume.mount (.memory (MemoryDisk.blank 8)) { format := true } =
      .ok (.ok v) ∧ Stores 8 v .blank := Volume.mount_eq_ok hsound (by decide) (by decide) rfl
  have hreached : Reached { volume := v } := .mount hsound (by decide) rfl hmount
  have hallowed : ∀ (S : Shelf) (held : List Handle), Call.root.Allowed S held :=
    fun _ _ => trivial
  have hrun : Yields never _ v _ := (stands_blank.call_yields hv (hallowed _ _)).mono_faults
    fun _ hnot => hnot trivial
  obtain ⟨answer, v', hx, S', heffect, -, hl, -⟩ := hrun.ok_of_never
  have hopened : Opens .blank true (.ok rootSector) answer S' := heffect
  obtain ⟨rfl, rfl⟩ := hopened
  exact ⟨_, hreached.call (hallowed _ _) hx, rfl, hl⟩

/-- On a fresh volume there is a slot for every name. -/
theorem nameFits_blank (hl : (Shelf.blank.opened rootSector).Like S) (path : String) (cwd : Handle) :
    Call.NameFits S path cwd := by
  intro p name q d _ _ hq _
  have hsettled := settled_blank.open (s := rootSector) rfl
  rw [(hsettled.like hl).2] at hq
  obtain ⟨-, hd⟩ := tree_blank hq
  obtain rfl : d = rootSector := congrArg Prod.fst hd
  have hbytes : S.bytes rootSector = (Shelf.blank.file rootSector).bytes :=
    congrArg File.bytes (hl.file rootSector rfl).symm
  refine .inl ⟨Entry.empty, ?_, Entry.isInUse_empty⟩
  rw [hbytes, slots_blank]
  exact List.mem_replicate.mpr ⟨by decide, rfl⟩

end Client
end TieredVolume
