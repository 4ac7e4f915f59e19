import TieredVolume.Proofs.Client.Standing

/-!
What each call answers and does, told on the shelf. A call that may be refused says when it is, and
a refused one leaves the shelf as it was.
-/
namespace TieredVolume

variable {total : Nat} {S S' : Shelf} {handles : List Handle} {h : Handle} {d s : Sector} {nd : Node}
  {offset : Nat} {m : Mark} {call : Call} {answer : Except Refusal Answer}
  {faults : Fault → Prop} {n : Nat}

/-- What the view does not show is not seen on the shelf either. -/
theorem quiet_stores {α : Type} {x : VolumeM n α}
    (hx : ∀ w : View, w.total = total → Does Volume.Shows faults x w fun _ w' => w' = w) :
    Does (Stores total) faults x S fun _ S' => S' = S := by
  refine Does.lift fun w hw => (hx w hw.total).mono ?_
  rintro - w' rfl
  exact ⟨S, hw, rfl⟩

/-- Looking for the next name changes nothing. -/
theorem Directory.next_does (hd : d ∈ S.live) (hn : S.node d = some nd) :
    Does (Stores total) faults (next (n := n) d offset) S fun _ S' => S' = S := by
  unfold next
  generalize maxSlots = slots
  induction slots generalizing offset with
  | zero => exact Does.pure rfl
  | succ slots ih =>
    refine Does.andThen (entryAt_quiet hd hn) ?_
    rintro r S' rfl
    match r with
    | none => exact Does.pure rfl
    | some e =>
      by_cases hu : e.isInUse = true
      · simp only [if_pos hu]
        exact Does.pure rfl
      · simp only [if_neg hu]
        exact ih

namespace Mark

/-- Taking back what was counted before. -/
theorem lower_does (count : Node → Nat) {g : Node → Node} {e : Fault} (hs : s ∈ S.live)
    (hn : S.node s = some nd) (hg : nd.loaded = none → (g nd).loaded = none)
    (hcount : 0 < count nd ∨ faults e) :
    Does (Stores total) faults (do
      let node ← Inode.node (n := n) s
      if count node = 0 then throw e
      Inode.setNode s (g node)) S fun _ S' => S' = S.setNode s (some (g nd)) := by
  refine Does.andThen (Inode.node_stores hn) ?_
  rintro nd' S' ⟨rfl, hbare, rfl⟩
  by_cases hzero : count nd' = 0
  · rw [if_pos hzero]
    exact Does.bind (Does.throw (hcount.resolve_left (by omega)))
  · rw [if_neg hzero]
    exact Inode.setNode_stores hs (hg hbare)

theorem run_does (hs : s ∈ S.live) (hn : S.node s = some nd)
    (hmatched : m.Matched nd ∨ ∀ e, faults e) :
    Does (Stores total) faults (m.run (n := n) s) S fun _ S' => S' = S.setNode s (some (m.apply nd)) := by
  cases m with
  | denyWrite => exact Inode.updateNode_stores hs hn id
  | attach => exact Inode.updateNode_stores hs hn id
  | enterCwd => exact Inode.updateNode_stores hs hn id
  | allowWrite => exact lower_does (·.denials) hs hn id (hmatched.imp_right (· _))
  | detach => exact lower_does (·.descriptors) hs hn id (hmatched.imp_right (· _))
  | leaveCwd => exact lower_does (·.cwdUsers) hs hn id (hmatched.imp_right (· _))

end Mark

/-- Writing to the inode is denied. -/
def Shelf.Denied (S : Shelf) (s : Sector) : Prop := ∃ nd, S.node s = some nd ∧ 0 < nd.denials

theorem Shelf.denied_iff (hn : S.node s = some nd) : S.Denied s ↔ 0 < nd.denials := by
  refine ⟨fun ⟨nd', hn', hpos⟩ => ?_, fun hpos => ⟨nd, hn, hpos⟩⟩
  rw [hn] at hn'
  exact Option.some.inj hn' ▸ hpos

/-- A node is created at the place that a path names for it. -/
def Makes (S : Shelf) (path : String) (cwd : Handle) (new : Namespace.NewNode)
    (answer : Except Refusal Answer) (S' : Shelf) : Prop :=
  ∃ c, S.tree c = some (cwd.sector, true) ∧
    match S.tree.placeFor c path with
    | .error why => answer = .error why ∧ S' = S
    | .ok p =>
      answer = .ok .done ∧ Created S p new S' ∨
      answer = .error .alreadyExists ∧ S.tree p ≠ none ∧ S' = S ∨
      answer = .error .noSpace ∧ S' = S

/-- Either it is there afterwards, or nothing was done. -/
theorem Makes.cases {path : String} {cwd : Handle} {new : Namespace.NewNode}
    (h : Makes S path cwd new answer S') :
    answer = .ok .done ∧ (∃ p, Created S p new S') ∨ (∃ why, answer = .error why) ∧ S' = S := by
  obtain ⟨c, -, hmade⟩ := h
  cases hplace : S.tree.placeFor c path with
  | error why =>
    rw [hplace] at hmade
    exact .inr ⟨⟨why, hmade.1⟩, hmade.2⟩
  | ok p =>
    rw [hplace] at hmade
    rcases hmade with ⟨hanswer, hcreated⟩ | ⟨hanswer, -, hS'⟩ | ⟨hanswer, hS'⟩
    · exact .inl ⟨hanswer, p, hcreated⟩
    · exact .inr ⟨⟨_, hanswer⟩, hS'⟩
    · exact .inr ⟨⟨_, hanswer⟩, hS'⟩

/-- An inode is opened, or it is said why not. -/
def Opens (S : Shelf) (isDir : Bool) (found : Except Refusal Sector)
    (answer : Except Refusal Answer) (S' : Shelf) : Prop :=
  match found with
  | .error why => answer = .error why ∧ S' = S
  | .ok s => answer = .ok (.opened ⟨s, isDir, 0⟩) ∧ S' = S.opened s

open Classical in
/-- Bytes are written to a file. -/
def Writes (S : Shelf) (s : Sector) (offset : Nat) (bytes : Bytes)
    (answer : Except Refusal Answer) (S' : Shelf) : Prop :=
  if bytes = [] ∨ S.Denied s then answer = .ok (.count 0) ∧ S' = S
  else
    answer = .ok (.count bytes.length) ∧ S' = S.setBytes s (splice (S.bytes s) offset bytes) ∨
    answer = .error .noSpace ∧ S' = S

/-- What a call answers and leaves. -/
def Call.Effect (S : Shelf) :
    Call → (answer : Except Refusal Answer) → (S' : Shelf) → Prop
  | root, answer, S' => Opens S true (.ok rootSector) answer S'
  | create path size cwd, answer, S' => Makes S path cwd (.file size) answer S'
  | createDirectory path cwd, answer, S' => Makes S path cwd .directory answer S'
  | openFile path cwd, answer, S' => ∃ c, S.tree c = some (cwd.sector, true) ∧
    Opens S false (S.tree.fileAt c path) answer S'
  | openDirectory path cwd, answer, S' => ∃ c, S.tree c = some (cwd.sector, true) ∧
    Opens S true (S.tree.directoryAt c path) answer S'
  | resolve path cwd, answer, S' => ∃ c, S.tree c = some (cwd.sector, true) ∧
    match S.tree.find c path with
    | none => answer = .ok .nothing ∧ S' = S
    | some (s, isDir) => Opens S isDir (.ok s) answer S'
  | remove path cwd, answer, S' => ∃ c, S.tree c = some (cwd.sector, true) ∧
    match S.tree.removal S.InUse c path with
    | .error why => answer = .error why ∧ S' = S
    | .ok p => answer = .ok .done ∧ Removed S p S'
  | readNext _, answer, S' => (∃ name cursor, answer = .ok (.name name cursor)) ∧ S' = S
  | readAt file offset count, answer, S' =>
    answer = .ok (.bytes (((S.bytes file.sector).drop offset).take count)) ∧ S' = S
  | writeAt file offset bytes, answer, S' => Writes S file.sector offset bytes answer S'
  | grow file size offset, answer, S' =>
    answer = .ok .done ∧
      S' = S.setBytes file.sector (extend (S.bytes file.sector) (offset + size)) ∨
    answer = .error .noSpace ∧ S' = S
  | allocateAt _ _, answer, S' =>
    ((∃ s, answer = .ok (.sector s)) ∨ answer = .error .noSpace) ∧ S' = S
  | length file, answer, S' => answer = .ok (.count (S.bytes file.sector).length) ∧ S' = S
  | mark m handle, answer, S' => answer = .ok .done ∧ ∃ nd, S.node handle.sector = some nd ∧
    S' = S.setNode handle.sector (some (m.apply nd))
  | clone handle, answer, S' =>
    answer = .ok (.opened { handle with cursor := 0 }) ∧ S' = S.opened handle.sector
  | close handle, answer, S' => answer = .ok .done ∧ S' = S.closed handle.sector
  | shutdown, answer, S' | flush, answer, S' | readAhead, answer, S' =>
    answer = .ok .done ∧ S' = S

/-! ### Each call has its effect -/

/-- Opening what a path leads to hands out just what the tree finds. -/
theorem opens_tries {x : Attempt n Sector} {c : List String} {path : String} {isDir : Bool}
    {other : Refusal} {found : Except Refusal Sector}
    (hx : Tries (Stores total) faults x S
      (fun s S' => ∃ q, S.tree.resolve c path = some q ∧ S.tree q = some (s, isDir) ∧
        S' = S.opened s)
      (fun why S' => S' = S ∧ (why = .notFound ∧ S.tree.resolve c path = none ∨
        why = other ∧ ∃ q s, S.tree.resolve c path = some q ∧ S.tree q = some (s, !isDir))))
    (hnone : S.tree.find c path = none → found = .error .notFound)
    (hsame : ∀ s, S.tree.find c path = some (s, isDir) → found = .ok s)
    (hother : ∀ s, S.tree.find c path = some (s, !isDir) → found = .error other) :
    Tries (Stores total) faults (do
        let s ← x
        return Answer.opened ⟨s, isDir, 0⟩) S
      (fun a S' => Opens S isDir found (.ok a) S')
      (fun why S' => Opens S isDir found (.error why) S') := by
  refine Tries.andThen hx ?_ ?_
  · rintro s S' ⟨q, hresolve, hq, rfl⟩
    rw [hsame s (by rw [Tree.find, hresolve, Option.bind_some, hq])]
    exact Tries.pure ⟨rfl, rfl⟩
  · rintro why S' ⟨rfl, ⟨rfl, hresolve⟩ | ⟨rfl, q, s, hresolve, hq⟩⟩
    · rw [hnone (by rw [Tree.find, hresolve, Option.bind_none])]
      exact ⟨rfl, rfl⟩
    · rw [hother s (by rw [Tree.find, hresolve, Option.bind_some, hq])]
      exact ⟨rfl, rfl⟩

namespace Stands

variable (hS : Stands S handles)

include hS

theorem makes_tries {path : String} {cwd : Handle} (new : Namespace.NewNode)
    (hcwd : cwd ∈ handles) (hdir : cwd.isDir = true)
    (hend : new.length ≤ maxSectors * sectorSize ∨ ∀ e, faults e)
    (hfits : Call.NameFits S path cwd ∨ ∀ e, faults e) :
    Tries (Stores total) faults (do
        Namespace.createNode (n := n) path cwd.sector new
        return Answer.done) S
      (fun a S' => Makes S path cwd new (.ok a) S')
      (fun why S' => Makes S path cwd new (.error why) S') := by
  obtain ⟨c, hc⟩ := hS.directory cwd hcwd hdir
  refine Tries.andThen (Namespace.createNode_tries hS.toSettled hc hend ?_) ?_ ?_
  · intro name q d hplace hq hnone
    rcases hfits with hfits | hany
    · exact .inl (hfits c name q d hc hplace hq hnone)
    · exact .inr (hany _)
  · rintro - S' ⟨p, hplace, hcreated⟩
    refine Tries.pure ⟨c, hc, ?_⟩
    rw [hplace]
    exact .inl ⟨rfl, hcreated⟩
  · rintro why S' ⟨rfl, hwhy⟩
    refine ⟨c, hc, ?_⟩
    rcases hwhy with herror | ⟨name, q, d, hplace, -, ⟨rfl, hp⟩ | ⟨rfl, -⟩⟩
    · rw [herror]
      exact ⟨rfl, rfl⟩
    · rw [hplace]
      exact .inr (.inl ⟨rfl, hp, rfl⟩)
    · rw [hplace]
      exact .inr (.inr ⟨rfl, rfl⟩)

theorem openFile_tries {path : String} {cwd : Handle} (hcwd : cwd ∈ handles)
    (hdir : cwd.isDir = true) :
    Tries (Stores total) faults (Call.attempt (n := n) (.openFile path cwd)) S
      (fun a S' => Call.Effect S (.openFile path cwd) (.ok a) S')
      (fun why S' => Call.Effect S (.openFile path cwd) (.error why) S') := by
  obtain ⟨c, hc⟩ := hS.directory cwd hcwd hdir
  refine (opens_tries (Namespace.openFile_tries hS.toSettled hc) ?_ ?_ ?_).mono
    (fun _ _ h => ⟨c, hc, h⟩) fun _ _ h => ⟨c, hc, h⟩
  · intro hfind
    simp only [Tree.fileAt, hfind]
  · intro s hfind
    simp only [Tree.fileAt, hfind]
  · intro s hfind
    simp only [Tree.fileAt, hfind, Bool.not_false]

theorem openDirectory_tries {path : String} {cwd : Handle} (hcwd : cwd ∈ handles)
    (hdir : cwd.isDir = true) :
    Tries (Stores total) faults (Call.attempt (n := n) (.openDirectory path cwd)) S
      (fun a S' => Call.Effect S (.openDirectory path cwd) (.ok a) S')
      (fun why S' => Call.Effect S (.openDirectory path cwd) (.error why) S') := by
  obtain ⟨c, hc⟩ := hS.directory cwd hcwd hdir
  refine (opens_tries (Namespace.openDirectory_tries hS.toSettled hc) ?_ ?_ ?_).mono
    (fun _ _ h => ⟨c, hc, h⟩) fun _ _ h => ⟨c, hc, h⟩
  · intro hfind
    simp only [Tree.directoryAt, hfind]
  · intro s hfind
    simp only [Tree.directoryAt, hfind]
  · intro s hfind
    simp only [Tree.directoryAt, hfind, Bool.not_true]

theorem resolve_tries {path : String} {cwd : Handle} (hcwd : cwd ∈ handles)
    (hdir : cwd.isDir = true) :
    Tries (Stores total) faults (Call.attempt (n := n) (.resolve path cwd)) S
      (fun a S' => Call.Effect S (.resolve path cwd) (.ok a) S')
      (fun why S' => Call.Effect S (.resolve path cwd) (.error why) S') := by
  obtain ⟨c, hc⟩ := hS.directory cwd hcwd hdir
  refine Tries.bind (Tries.always ((Namespace.resolve_does hS.toSettled hc).mono ?_))
  intro found S' harrives
  cases hq : S.tree.resolve c path with
  | none =>
    rw [hq] at harrives
    obtain ⟨rfl, rfl⟩ := harrives
    refine Tries.pure ⟨c, hc, ?_⟩
    rw [Tree.find, hq]
    exact ⟨rfl, rfl⟩
  | some q =>
    rw [hq] at harrives
    obtain ⟨s, isDir, hplace, rfl, rfl⟩ := harrives
    refine Tries.pure ⟨c, hc, ?_⟩
    rw [Tree.find, hq, Option.bind_some, hplace]
    exact ⟨rfl, rfl⟩

theorem remove_tries {path : String} {cwd : Handle} (hcwd : cwd ∈ handles)
    (hdir : cwd.isDir = true) :
    Tries (Stores total) faults (Call.attempt (n := n) (.remove path cwd)) S
      (fun a S' => Call.Effect S (.remove path cwd) (.ok a) S')
      (fun why S' => Call.Effect S (.remove path cwd) (.error why) S') := by
  obtain ⟨c, hc⟩ := hS.directory cwd hcwd hdir
  refine Tries.andThen (Namespace.remove_tries hS.toSettled hc) ?_ ?_
  · rintro - S' ⟨p, hplace, hremoved⟩
    have hremoval : S.tree.removal S.InUse c path = .ok p := by
      obtain ⟨-, -, -, t, isDir, -, -, -, hp, hfree, -, -⟩ := hremoved
      simp only [Tree.removal, hplace, hp]
      cases isDir with
      | false => rfl
      | true =>
        have hempty : ¬ ∃ name, S.tree (name :: p) ≠ none := fun ⟨m, hm⟩ => hm ((hfree rfl).2 m)
        simp only [if_neg (hfree rfl).1, if_neg hempty]
    refine Tries.pure ⟨c, hc, ?_⟩
    rw [hremoval]
    exact ⟨rfl, hremoved⟩
  · rintro why S' ⟨rfl, hwhy⟩
    have hremoval : S'.tree.removal S'.InUse c path = .error why := by
      unfold Tree.removal
      rcases hwhy with hplace | ⟨p, hplace, ⟨rfl, hp⟩ | ⟨t, hp, ⟨rfl, huse⟩ | ⟨rfl, hfree, hfull⟩⟩⟩
      · simp only [hplace]
      · simp only [hplace, hp]
      · simp only [hplace, hp, if_pos huse]
      · simp only [hplace, hp, if_neg hfree, if_pos hfull]
    refine ⟨c, hc, ?_⟩
    rw [hremoval]
    exact ⟨rfl, rfl⟩

theorem writeAt_tries {file : Handle} {offset : Nat} {bytes : Bytes} (hfile : file ∈ handles)
    (hend : offset + bytes.length ≤ maxSectors * sectorSize ∨ ∀ e, faults e) :
    Tries (Stores total) faults (Call.attempt (n := n) (.writeAt file offset bytes)) S
      (fun a S' => Call.Effect S (.writeAt file offset bytes) (.ok a) S')
      (fun why S' => Call.Effect S (.writeAt file offset bytes) (.error why) S') := by
  obtain ⟨nd, hn⟩ := hS.exists_node hfile
  refine Tries.andThen (Inode.writeAt_tries (hS.live hfile) hn (hend.imp lt_offsetLimit (· _))
    (hend.imp_right (· _))) ?_ ?_
  · rintro k S' hk
    refine Tries.pure (show Writes S file.sector offset bytes _ S' from ?_)
    unfold Writes
    rw [Shelf.denied_iff hn]
    split at hk
    · rename_i hnothing
      rw [if_pos hnothing, hk.1]
      exact ⟨rfl, hk.2⟩
    · rename_i hsomething
      rw [if_neg hsomething, hk.1]
      exact .inl ⟨rfl, hk.2⟩
  · rintro why S' ⟨rfl, hsomething, -, rfl⟩
    change Writes S' file.sector offset bytes _ S'
    unfold Writes
    rw [Shelf.denied_iff hn, if_neg hsomething]
    exact .inr ⟨rfl, rfl⟩

/-- Every call has its effect, and does not end in a fault if it is bounded and fits. -/
theorem attempt_tries (hcall : call.Possible handles) :
    Tries (Stores total) (fun _ => ¬ (call.Bounded ∧ call.Fits S)) (call.attempt (n := n)) S
      (fun a S' => call.Effect S (.ok a) S') (fun why S' => call.Effect S (.error why) S') := by
  have hbounded : call.Bounded ∨ ∀ _ : Fault, ¬ (call.Bounded ∧ call.Fits S) :=
    (Classical.em _).imp_right fun hfar _ hboth => hfar hboth.1
  have hfits : call.Fits S ∨ ∀ _ : Fault, ¬ (call.Bounded ∧ call.Fits S) :=
    (Classical.em _).imp_right fun hfull _ hboth => hfull hboth.2
  cases call with
  | root =>
    refine Tries.bind (Tries.always ((Inode.open_stores (hS.linked [] rootSector true rfl)).mono ?_))
    rintro - S' rfl
    exact Tries.pure ⟨rfl, rfl⟩
  | create path size cwd =>
    exact hS.makes_tries (.file size) hcall.1 hcall.2 hbounded hfits
  | createDirectory path cwd =>
    exact hS.makes_tries .directory hcall.1 hcall.2 (.inl (by decide)) hfits
  | openFile path cwd => exact hS.openFile_tries hcall.1 hcall.2
  | openDirectory path cwd => exact hS.openDirectory_tries hcall.1 hcall.2
  | resolve path cwd => exact hS.resolve_tries hcall.1 hcall.2
  | remove path cwd => exact hS.remove_tries hcall.1 hcall.2
  | readNext dir =>
    obtain ⟨nd, hn⟩ := hS.exists_node hcall.1
    refine Tries.bind (Tries.always ((Directory.next_does (hS.live hcall.1) hn).mono ?_))
    rintro ⟨name, cursor⟩ S' rfl
    exact Tries.pure ⟨⟨name, cursor, rfl⟩, rfl⟩
  | readAt file offset count =>
    obtain ⟨nd, hn⟩ := hS.exists_node hcall
    refine Tries.bind (Tries.always ((Inode.readAt_does (hS.live hcall) hn).mono ?_))
    rintro bytes S' ⟨rfl, rfl⟩
    exact Tries.pure ⟨rfl, rfl⟩
  | writeAt file offset bytes => exact hS.writeAt_tries hcall.1 hbounded
  | grow file size offset =>
    obtain ⟨nd, hn⟩ := hS.exists_node hcall.1
    refine Tries.andThen (Inode.grow_tries (hS.live hcall.1) hn
      (hbounded.imp lt_offsetLimit (· .overflow)) (hbounded.imp_right (· .overflow))) ?_ ?_
    · rintro - S' rfl
      exact Tries.pure (.inl ⟨rfl, rfl⟩)
    · rintro why S' ⟨rfl, rfl⟩
      exact .inr ⟨rfl, rfl⟩
  | allocateAt file offset =>
    obtain ⟨nd, hn⟩ := hS.exists_node hcall
    have hend : offset / sectorSize < maxSectors ∨
        ¬ ((Call.allocateAt file offset).Bounded ∧ offset < maxSectors * sectorSize) := by
      refine (Nat.lt_or_ge _ _).imp_right fun hge hboth => ?_
      have hlt := hboth.2
      simp only [sectorSize, maxSectors] at hlt hge
      omega
    refine Tries.andThen (Inode.allocateAt_tries (hS.live hcall) hn hend) ?_ ?_
    · rintro s S' rfl
      exact Tries.pure ⟨.inl ⟨s, rfl⟩, rfl⟩
    · rintro why S' ⟨rfl, rfl⟩
      exact ⟨.inr rfl, rfl⟩
  | length file =>
    obtain ⟨nd, hn⟩ := hS.exists_node hcall
    refine Tries.bind (Tries.always ((Inode.length_does (hS.live hcall) hn).mono ?_))
    rintro count S' ⟨rfl, rfl⟩
    exact Tries.pure ⟨rfl, rfl⟩
  | mark m handle =>
    obtain ⟨nd, hn⟩ := hS.exists_node hcall.1
    have hmatched := hfits.imp_left (· nd hn)
    refine Tries.bind (Tries.always ((Mark.run_does (hS.live hcall.1) hn hmatched).mono ?_))
    rintro - S' rfl
    exact Tries.pure ⟨rfl, nd, hn, rfl⟩
  | clone handle =>
    refine Tries.bind (Tries.always ((Inode.open_stores (hS.live hcall)).mono ?_))
    rintro - S' rfl
    exact Tries.pure ⟨rfl, rfl⟩
  | close handle =>
    obtain ⟨nd, hn⟩ := hS.exists_node hcall
    refine Tries.bind (Tries.always ((Inode.close_stores (hS.live hcall) hn).mono ?_))
    rintro - S' rfl
    exact Tries.pure ⟨rfl, rfl⟩
  | shutdown =>
    refine Tries.bind (Tries.always ((quiet_stores fun _ _ => Volume.shutdown_does).mono ?_))
    rintro - S' rfl
    exact Tries.pure ⟨rfl, rfl⟩
  | flush =>
    refine Tries.bind (Tries.always ((quiet_stores fun _ _ => Volume.flushAll_does).mono ?_))
    rintro - S' rfl
    exact Tries.pure ⟨rfl, rfl⟩
  | readAhead =>
    refine Tries.bind (Tries.always ((quiet_stores fun _ _ => Volume.serveReadAhead_does).mono ?_))
    rintro - S' rfl
    exact Tries.pure ⟨rfl, rfl⟩

end Stands

end TieredVolume
