import TieredVolume.Proofs.Client.Course

/-!
Files are byte lists. A client that only ever looks at files through its calls sees a list of bytes
for each of them: reads hand out a part of it, writes and growth change it as they say or not at
all, and no call on anything else does.
-/
namespace TieredVolume

variable {S S' : Shelf} {handles : List Handle} {h : Handle} {p : List String} {s t : Sector}
  {nd : Node} {bytes : Bytes} {new : Namespace.NewNode} {call : Call}
  {answer : Except Refusal Answer}

/-- An inode that is needed and is no directory. -/
def Shelf.IsFile (S : Shelf) (s : Sector) : Prop := s ∈ S.live ∧ ∀ p, S.tree p ≠ some (s, true)

open Classical in
/-- The bytes of every file. -/
noncomputable def Shelf.files (S : Shelf) (s : Sector) : Option Bytes :=
  if S.IsFile s then some (S.bytes s) else none

/-- The files that are still needed have their bytes, and the others are gone. -/
def Shelf.FilesLeft (S S' : Shelf) : Prop :=
  ∀ s, (s ∈ S'.live → S'.files s = S.files s) ∧ (s ∉ S'.live → S'.files s = none)

open Classical in
/-- What a call answers about the bytes of files, and how it changes them. -/
def Call.OnFiles (S S' : Shelf) : Call → (answer : Except Refusal Answer) → Prop
  | readAt file offset count, answer => ∃ bytes, S.files file.sector = some bytes ∧
    answer = .ok (.bytes ((bytes.drop offset).take count)) ∧ S'.files = S.files
  | length file, answer => ∃ bytes, S.files file.sector = some bytes ∧
    answer = .ok (.count bytes.length) ∧ S'.files = S.files
  | writeAt file offset new, answer => ∃ bytes, S.files file.sector = some bytes ∧
    if new = [] ∨ S.Denied file.sector then answer = .ok (.count 0) ∧ S'.files = S.files
    else
      answer = .ok (.count new.length) ∧
        S'.files = Function.update S.files file.sector (some (splice bytes offset new)) ∨
      answer = .error .noSpace ∧ S'.files = S.files
  | grow file size offset, answer => ∃ bytes, S.files file.sector = some bytes ∧
    (answer = .ok .done ∧
      S'.files = Function.update S.files file.sector (some (extend bytes (offset + size))) ∨
    answer = .error .noSpace ∧ S'.files = S.files)
  | allocateAt _ _, answer =>
    ((∃ s, answer = .ok (.sector s)) ∨ answer = .error .noSpace) ∧ S'.files = S.files
  | create _ size _, .ok _ => ∃ s, S.files s = none ∧
    S'.files = Function.update S.files s (some (List.replicate size 0))
  | remove _ _, .ok _ | close _, .ok _ => S.FilesLeft S'
  | _, _ => S'.files = S.files

theorem Shelf.files_of_isFile (hs : S.IsFile s) : S.files s = some (S.bytes s) := if_pos hs

theorem Shelf.files_of_not_live (hs : s ∉ S.live) : S.files s = none := if_neg fun h => hs h.1

/-- Whether an inode is a file, and its bytes, are all that counts. -/
theorem files_eq (hfile : S'.IsFile s ↔ S.IsFile s) (hbytes : S.IsFile s → S'.bytes s = S.bytes s) :
    S'.files s = S.files s := by
  by_cases hs : S.IsFile s
  · rw [Shelf.files_of_isFile hs, Shelf.files_of_isFile (hfile.mpr hs), hbytes hs]
  · rw [Shelf.files, Shelf.files, if_neg hs, if_neg (hfile.not.mpr hs)]

theorem Settled.files_like (hS : Settled S) (hl : S.Like S') : S'.files = S.files := by
  funext s
  refine files_eq ?_ fun hs => by rw [Shelf.bytes, Shelf.bytes, hl.file s hs.1]
  rw [Shelf.IsFile, Shelf.IsFile, (hS.like hl).2, hl.live]

theorem Settled.files_setBytes (hS : Settled S) (hs : S.IsFile s) :
    (S.setBytes s bytes).files = Function.update S.files s (some bytes) := by
  have hfile : ∀ t, (S.setBytes s bytes).IsFile t ↔ S.IsFile t := fun t => by
    rw [Shelf.IsFile, (hS.setBytes bytes hs.2).2]
    exact Iff.rfl
  funext t
  by_cases hts : t = s
  · subst hts
    rw [Shelf.files_of_isFile ((hfile t).mpr hs), Function.update_self, Shelf.bytes,
      Shelf.file_setBytes_self]
  · rw [Function.update_of_ne hts]
    exact files_eq (hfile t) fun _ => by rw [Shelf.bytes, Shelf.bytes, Shelf.file_setBytes_of_ne hts]

/-- The bytes of a new file, which a directory is not. -/
def Namespace.NewNode.contents : Namespace.NewNode → Option Bytes
  | .file size => some (List.replicate size 0)
  | .directory => none

theorem Created.files (hS : Settled S) (hmade : Created S p new S') :
    ∃ s, S.files s = none ∧ S'.files = Function.update S.files s new.contents := by
  obtain ⟨name, q, d, s, bytes, rfl, hq, hnone, hs, hlist, hS'⟩ := hmade
  have htree : S'.tree = S.tree.set (name :: q) (some (s, new.isDir)) :=
    hS' ▸ (hS.grafted_created hq hnone hs hlist).tree hS.rooted
  have hlive : S'.live = insert s S.live := hS' ▸ rfl
  have hds : s ≠ d := fun heq => hs (heq ▸ hS.linked q d true hq)
  have hbytes : S'.bytes s = List.replicate new.length 0 := by
    rw [hS', Shelf.bytes, Shelf.file_setBytes_of_ne hds]
    simp only [Shelf.plant, Function.update_self]
  -- what is not new is as it was
  have hold : ∀ t, t ≠ s → S'.files t = S.files t := fun t hts => by
    have hplace : ∀ p, S'.tree p = some (t, true) ↔ S.tree p = some (t, true) := fun p => by
      rw [htree, Tree.set]
      by_cases hp : p = name :: q
      · rw [hp, Function.update_self, hnone]
        constructor
        · intro h
          exact absurd (congrArg Prod.fst (Option.some.inj h)).symm hts
        · intro h
          cases h
      · rw [Function.update_of_ne hp]
    refine files_eq ?_ fun ht => ?_
    · simp only [Shelf.IsFile, hlive, Set.mem_insert_iff, hts, false_or, ne_eq, hplace]
    · have htd : t ≠ d := fun heq => ht.2 q (heq ▸ hq)
      rw [hS', Shelf.bytes, Shelf.file_setBytes_of_ne htd]
      simp only [Shelf.plant, Function.update_of_ne hts, Shelf.bytes]
  refine ⟨s, Shelf.files_of_not_live hs, ?_⟩
  funext t
  by_cases hts : t = s
  · rw [hts, Function.update_self]
    have hplace : S'.tree (name :: q) = some (s, new.isDir) := by
      rw [htree, Tree.set, Function.update_self]
    cases new with
    | file size =>
      have hfile : S'.IsFile s := by
        refine ⟨hlive ▸ .inl rfl, fun p hp => ?_⟩
        rw [htree, Tree.set] at hp
        by_cases heq : p = name :: q
        · rw [heq, Function.update_self] at hp
          cases hp
        · rw [Function.update_of_ne heq] at hp
          exact hs (hS.linked p s true hp)
      rw [Shelf.files_of_isFile hfile, hbytes]
      rfl
    | directory =>
      have hdir : ¬ S'.IsFile s := fun hfile => hfile.2 (name :: q) hplace
      exact if_neg hdir
  · rw [hold t hts, Function.update_of_ne hts]

/-- Removing what is not open as a directory leaves the files that are still needed. -/
theorem Removed.filesLeft (hS : Settled S) (hgone : Removed S p S')
    (hdir : ∀ t, S.tree p = some (t, true) → S.node t = none) : S.FilesLeft S' := by
  have htree := (hgone.settled hS).2
  obtain ⟨name, q, d, t, isDir, bytes, rfl, hq, hp, -, -, rfl⟩ := hgone
  refine fun s => ⟨fun hs => ?_, fun hs => Shelf.files_of_not_live hs⟩
  obtain ⟨hlive, hopen⟩ := Shelf.mem_live_removed.mp hs
  refine files_eq ?_ fun hfile => ?_
  · have hplace : ∀ p', S.tree.set (name :: q) none p' = some (s, true) ↔
        S.tree p' = some (s, true) := fun p' => by
      rw [Tree.set]
      by_cases heq : p' = name :: q
      · rw [heq, Function.update_self]
        constructor
        · intro hnone
          cases hnone
        · intro hplace
          have hst : s = t := by
            rw [hp] at hplace
            exact (congrArg Prod.fst (Option.some.inj hplace)).symm
          exact absurd (hdir t (hst ▸ hplace)) (hopen hst)
      · rw [Function.update_of_ne heq]
    rw [Shelf.IsFile, htree]
    simp only [ne_eq, hplace]
    exact ⟨fun h => ⟨hlive, h.2⟩, fun h => ⟨hs, h.2⟩⟩
  · have hsd : s ≠ d := fun heq => hfile.2 q (heq ▸ hq)
    rw [Shelf.bytes, Shelf.file_removed, Shelf.file_setBytes_of_ne hsd, Shelf.bytes]

theorem filesLeft_closed (S : Shelf) (t : Sector) : S.FilesLeft (S.closed t) := by
  have hlive : ∀ s ∈ (S.closed t).live, s ∈ S.live := fun s hs => by
    unfold Shelf.closed at hs
    split at hs
    · exact hs
    · split at hs
      · exact hs
      · split at hs
        · exact hs.1
        · exact hs
  refine fun s => ⟨fun hs => files_eq ?_ fun _ => ?_, fun hs => Shelf.files_of_not_live hs⟩
  · rw [Shelf.IsFile, Shelf.IsFile, Shelf.tree, Shelf.file_closed, Shelf.tree]
    exact ⟨fun h => ⟨hlive s hs, h.2⟩, fun h => ⟨hs, h.2⟩⟩
  · rw [Shelf.bytes, Shelf.file_closed, Shelf.bytes]

/-! ### Calls -/

/-- A directory that may be removed is not open. -/
theorem Stands.node_eq_none (hS : Stands S handles) (hp : S.tree p = some (s, true))
    (hne : p ≠ []) (hfree : ¬ S.InUse s)
    (huse : ∀ h ∈ handles, h.isDir = true → h.sector ≠ rootSector → S.InUse h.sector) :
    S.node s = none := by
  cases hn : S.node s with
  | none => rfl
  | some nd =>
    have hpos := hS.counted s nd hn
    rw [← Shelf.openers_of_node hn, hS.openers] at hpos
    obtain ⟨h, hh, hsector⟩ := List.countP_pos_iff.mp hpos
    obtain rfl : h.sector = s := of_decide_eq_true hsector
    have hdir : h.isDir = true := by
      by_contra hfile
      exact hS.file h hh (Bool.not_eq_true _ ▸ hfile) p hp
    refine absurd (huse h hh hdir fun hroot => hne ?_) hfree
    exact hS.rooted.unique p [] h.sector true true hp (by rw [hroot]; rfl)

theorem Stands.isFile (hS : Stands S handles) (hh : h ∈ handles) (hfile : h.isDir = false) :
    S.IsFile h.sector :=
  ⟨hS.live hh, hS.file h hh hfile⟩

/-- Opening changes no file. -/
theorem files_opens {isDir : Bool} {found : Except Refusal Sector}
    (h : Opens S isDir found answer S') : S'.files = S.files := by
  cases found with
  | error why => rw [h.2]
  | ok s =>
    rw [h.2]
    rfl

/-- Each call does to files what is said of it. -/
theorem Stands.onFiles (hS : Stands S handles) (hcall : call.Allowed S handles)
    (heffect : call.Effect S answer S') : call.OnFiles S S' answer := by
  cases call with
  | root =>
    have hopened : Opens S true (.ok rootSector) answer S' := heffect
    exact files_opens hopened
  | create path size cwd =>
    rcases Makes.cases heffect with ⟨rfl, p, hcreated⟩ | ⟨⟨why, rfl⟩, rfl⟩
    · exact hcreated.files hS.toSettled
    · rfl
  | createDirectory path cwd =>
    rcases Makes.cases heffect with ⟨rfl, p, hcreated⟩ | ⟨⟨why, rfl⟩, rfl⟩
    · obtain ⟨s, hs, hfiles⟩ := hcreated.files hS.toSettled
      have hsame : Function.update S.files s none = S.files := by
        rw [← hs, Function.update_eq_self]
      exact hfiles.trans hsame
    · rfl
  | openFile path cwd =>
    obtain ⟨c, -, hopened⟩ := heffect
    exact files_opens hopened
  | openDirectory path cwd =>
    obtain ⟨c, -, hopened⟩ := heffect
    exact files_opens hopened
  | resolve path cwd =>
    obtain ⟨c, -, hopened⟩ := heffect
    split at hopened
    · obtain ⟨rfl, rfl⟩ := hopened
      rfl
    · exact files_opens hopened
  | remove path cwd =>
    obtain ⟨c, -, hremoved⟩ := heffect
    split at hremoved
    · obtain ⟨rfl, rfl⟩ := hremoved
      rfl
    · obtain ⟨rfl, hremoved⟩ := hremoved
      refine hremoved.filesLeft hS.toSettled fun t hp => ?_
      obtain ⟨name, q, d, t', isDir, bytes, rfl, -, hp', hfree, -⟩ := hremoved
      rw [hp] at hp'
      obtain ⟨rfl, rfl⟩ := Prod.mk.inj (Option.some.inj hp')
      exact hS.node_eq_none hp (List.cons_ne_nil name q) (hfree rfl).1 hcall.2.2
  | readNext dir =>
    obtain ⟨⟨name, cursor, rfl⟩, rfl⟩ := heffect
    rfl
  | readAt file offset count =>
    obtain ⟨rfl, rfl⟩ := heffect
    exact ⟨_, Shelf.files_of_isFile (hS.isFile hcall.1 hcall.2), rfl, rfl⟩
  | writeAt file offset bytes =>
    have hfile := hS.isFile hcall.1 hcall.2.1
    refine ⟨_, Shelf.files_of_isFile hfile, ?_⟩
    change Writes S file.sector offset bytes answer S' at heffect
    unfold Writes at heffect
    split at heffect
    · rename_i hnothing
      rw [if_pos hnothing, heffect.2]
      exact ⟨heffect.1, rfl⟩
    · rename_i hsomething
      rw [if_neg hsomething]
      rcases heffect with ⟨rfl, rfl⟩ | ⟨rfl, rfl⟩
      · exact .inl ⟨rfl, hS.toSettled.files_setBytes hfile⟩
      · exact .inr ⟨rfl, rfl⟩
  | grow file size offset =>
    have hfile := hS.isFile hcall.1 hcall.2.1
    refine ⟨_, Shelf.files_of_isFile hfile, ?_⟩
    rcases heffect with ⟨rfl, rfl⟩ | ⟨rfl, rfl⟩
    · exact .inl ⟨rfl, hS.toSettled.files_setBytes hfile⟩
    · exact .inr ⟨rfl, rfl⟩
  | allocateAt file offset =>
    obtain ⟨hanswer, rfl⟩ := heffect
    exact ⟨hanswer, rfl⟩
  | length file =>
    obtain ⟨rfl, rfl⟩ := heffect
    exact ⟨_, Shelf.files_of_isFile (hS.isFile hcall.1 hcall.2), rfl, rfl⟩
  | mark m handle =>
    obtain ⟨rfl, nd, hn, rfl⟩ := heffect
    rfl
  | clone handle =>
    obtain ⟨rfl, rfl⟩ := heffect
    rfl
  | close handle =>
    obtain ⟨rfl, rfl⟩ := heffect
    exact filesLeft_closed S handle.sector
  | shutdown | flush | readAhead =>
    obtain ⟨rfl, rfl⟩ := heffect
    rfl

/-- It makes no difference to look at what everyone sees. -/
theorem Call.OnFiles.congr {T : Shelf} (h : call.OnFiles S S' answer) (hfiles : T.files = S'.files)
    (hlive : T.live = S'.live) : call.OnFiles S T answer := by
  unfold Call.OnFiles Shelf.FilesLeft at h ⊢
  rw [hfiles, hlive]
  exact h

namespace Client

variable {c : Client}

/-- Files are byte lists, whatever happened before. Everything that has a place and is no directory
is one, and so is everything that is held as a file; a call reads and changes the lists as is said
of it, and ends in a fault only if it does not fit, which no call on the bytes of files does. -/
theorem Reached.byte_lists (h : Reached c) (hcall : call.Allowed c.shelf c.handles) :
    (∀ p s, c.shelf.tree p = some (s, false) → c.shelf.IsFile s) ∧
    (∀ h ∈ c.handles, h.isDir = false → c.shelf.IsFile h.sector) ∧
    match call.attempt.run c.volume with
    | .ok answer volume => call.OnFiles c.shelf volume.shelf answer
    | .error _ _ => ¬ call.Fits c.shelf := by
  obtain ⟨hv, hS⟩ := h.stands
  refine ⟨fun p s hp => ⟨hS.linked p s false hp, fun q hq => ?_⟩, fun h hh => hS.isFile hh, ?_⟩
  · obtain rfl := hS.rooted.unique p q s false true hp hq
    rw [hp] at hq
    cases hq
  · have hrun := (hS.call_yields hv hcall).mono fun answer volume ⟨S', heffect, hS', hl, _⟩ =>
      (hS.onFiles hcall heffect).congr (hS'.toSettled.files_like hl) hl.live.symm
    cases hx : call.attempt.run c.volume with
    | ok answer volume => exact hrun.of_ok hx
    | error e volume => exact hrun.of_error hx

/-- Two bytes of a file of five are written over. -/
theorem Reached.byte_lists_written : ∃ (c : Client) (file : Handle) (volume : Volume cacheCapacity),
    Reached c ∧ (Call.writeAt file 1 [7, 8]).Allowed c.shelf c.handles ∧
    c.shelf.files file.sector = some [1, 2, 3, 0, 0] ∧
    (Call.writeAt file 1 [7, 8]).attempt.run c.volume = .ok (.ok (.count 2)) volume ∧
    volume.shelf.files = Function.update c.shelf.files file.sector (some [1, 7, 8, 0, 0]) := by
  obtain ⟨c, s, volume, hc, hw, ⟨hallowed, -⟩, hrun⟩ := exists_overwriting
  have hreached : Reached c := hc.reached fun _ _ _ h => h.1
  obtain ⟨hplaces, -, hdoes⟩ := hreached.byte_lists hallowed
  have hfiles : c.shelf.files s = some [1, 2, 3, 0, 0] := by
    rw [Shelf.files_of_isFile (hplaces _ s hw.place), hw.bytes]
  rw [hrun] at hdoes
  obtain ⟨bytes, hbytes, hwrites⟩ := hdoes
  obtain rfl : bytes = [1, 2, 3, 0, 0] := Option.some.inj (hbytes.symm.trans hfiles)
  refine ⟨c, ⟨s, false, 0⟩, volume, hreached, hallowed, hfiles, hrun, ?_⟩
  split at hwrites
  · cases hwrites.1
  · rcases hwrites with ⟨-, hnew⟩ | ⟨hrefused, -⟩
    · exact hnew
    · cases hrefused

end Client
end TieredVolume
