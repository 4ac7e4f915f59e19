import TieredVolume.Proofs.Client.Course

/-!
What paths lead to. Whatever directory a careful client starts from, a path that is resolved leads to
an inode that there is. A client that does not say which directories it holds can remove the parent
of one of them, and then walks up to a sector that was given back.
-/
namespace TieredVolume

variable {total : Nat} {S S' : Shelf} {s a b : Sector} {nd : Node} {n : Nat} {v : Volume n}
  {faults : Fault → Prop}

/-- An inode that there is. Its header is in use and holds a record of data, and it has a place
below the root or was removed while someone had it open. -/
structure Volume.HasInode (v : Volume n) (s : Sector) : Prop where
  used : v.view.used s = true
  record : (Record.ofBlock (v.view.block s)).Is .data
  live : s ∈ v.shelf.live

theorem Stores.hasInode (hv : Stores total v S) (hS : Settled S) (hs : s ∈ S.live) :
    v.HasInode s where
  used := (hv.keeps_view.2.forest.header_stored hs).1
  record := by
    have hw := hv.keeps_view.2
    have hheader := hw.forest.header s hs
    rwa [View.header, hw.unloaded, Option.getD_none] at hheader
  live := (hv.like_shelf hS).live ▸ hs

/-- What is opened at a place is there. -/
theorem Tries.answers_hasInode {x : Attempt cacheCapacity Sector} {refused : Refusal → Shelf → Prop}
    {v : Volume cacheCapacity} (hS : Settled S) (hv : Stores total v S)
    (hx : Tries (Stores total) never x S
      (fun s S' => (∃ q b, S.tree q = some (s, b)) ∧ S' = S.opened s) refused) :
    ∃ answer after, x.run v = .ok answer after ∧ ∀ s, answer = .ok s → after.HasInode s := by
  have hrun : Yields never x.run v _ := hx v hv
  obtain ⟨answer, after, hrun, S', hv', hpost⟩ := hrun.ok_of_never
  refine ⟨answer, after, hrun, ?_⟩
  rintro s rfl
  obtain ⟨⟨q, b, hq⟩, rfl⟩ := hpost
  have hs := hS.linked q s b hq
  exact hv'.hasInode (hS.open hs) hs

namespace Client

variable {c : Client} {cwd : Handle}

/-- From any directory that a careful client holds, whatever a path is resolved to, or opened as, is
an inode that there is. -/
theorem Comes.finds (h : Comes Call.Careful c) (hheld : cwd ∈ c.handles) (hdir : cwd.isDir = true)
    (path : String) :
    (∃ found after, Namespace.resolve cwd.sector path c.volume = .ok found after ∧
      ∀ s b, found = some (s, b) → after.HasInode s) ∧
    ∀ x ∈ [Namespace.openFile path cwd.sector, Namespace.openDirectory path cwd.sector,
        Namespace.openParent path cwd.sector],
      ∃ answer after, x.run c.volume = .ok answer after ∧ ∀ s, answer = .ok s → after.HasInode s := by
  obtain ⟨hv, hS⟩ := h.stands
  obtain ⟨p, hp⟩ := hS.directory cwd hheld hdir
  have hsettled := hS.toSettled
  refine ⟨?_, fun x hx => ?_⟩
  · have hrun : Yields never (Namespace.resolve cwd.sector path) c.volume _ :=
      Namespace.resolve_does hsettled hp c.volume hv
    obtain ⟨found, after, hrun, S', hv', harrives⟩ := hrun.ok_of_never
    refine ⟨found, after, hrun, ?_⟩
    rintro s b rfl
    cases hq : c.shelf.tree.resolve p path with
    | none =>
      rw [hq] at harrives
      cases harrives.1
    | some q =>
      rw [hq] at harrives
      obtain ⟨s', b', hplace, heq, rfl⟩ := harrives
      obtain ⟨rfl, rfl⟩ := Prod.mk.inj (Option.some.inj heq)
      have hs := hsettled.linked q s b hplace
      exact hv'.hasInode (hsettled.open hs) hs
  · rcases List.mem_cons.mp hx with rfl | hx
    · exact Tries.answers_hasInode hsettled hv ((Namespace.openFile_tries hsettled hp).mono
        (fun s S' ⟨q, _, hq, hS'⟩ => ⟨⟨q, false, hq⟩, hS'⟩) fun _ _ h => h)
    rcases List.mem_cons.mp hx with rfl | hx
    · exact Tries.answers_hasInode hsettled hv ((Namespace.openDirectory_tries hsettled hp).mono
        (fun s S' ⟨q, _, hq, hS'⟩ => ⟨⟨q, true, hq⟩, hS'⟩) fun _ _ h => h)
    rw [List.mem_singleton.mp hx]
    exact Tries.answers_hasInode hsettled hv ((Namespace.openParent_tries hsettled hp).mono
      (fun s S' ⟨q, _, hq, hS'⟩ => ⟨⟨q, true, hq⟩, hS'⟩) fun _ _ h => h)

/-! ### Without the count -/

/-- An empty directory in a directory below the root, and nobody has either open. -/
structure Nested (S : Shelf) (outer inner : Sector) : Prop where
  settled : Settled S
  outerPlace : S.tree ["a"] = some (outer, true)
  innerPlace : S.tree ["b", "a"] = some (inner, true)
  alone : ∀ m, m ≠ "b" → S.tree [m, "a"] = none
  bare : S.Bare inner
  outerClosed : S.node outer = none
  innerClosed : S.node inner = none

section Nested

variable {outer inner : Sector} {S₀ : Shelf} {here : List String}

theorem resolve_outer (hroot : S.tree [] = some (rootSector, true))
    (houter : S.tree ["a"] = some (outer, true)) : S.tree.resolveParent here "/a" = some ["a"] := by
  rw [Tree.resolveParent, if_neg (by decide)]
  exact Tree.resolve_name (by decide) (by decide) (by decide) (by decide) (by decide) hroot houter

theorem Nested.resolve_inner (h : Nested S outer inner) :
    S.tree.resolve here "/a/b" = some ["b", "a"] := by
  rw [Tree.resolve_absolute (by decide) (by decide),
    show Path.components "/a/b" = ["a", "b"] by decide,
    Tree.walk_into (by decide) (by decide) rfl h.outerPlace,
    Tree.walk_into (by decide) (by decide) h.outerPlace h.innerPlace, Tree.walk]

theorem Nested.of_added (ha : Added S₀ ["a"] .directory rootSector outer S)
    (hclosed : S₀.node outer = none) (hb : Added S ["b", "a"] .directory outer inner S') :
    Nested S' outer inner where
  settled := hb.settled
  outerPlace := by
    rw [hb.tree, Tree.set, Function.update_of_ne (by decide)]
    exact ha.place
  innerPlace := hb.place
  alone := fun m hm => by
    rw [hb.tree, Tree.set, Function.update_of_ne (by simp [hm])]
    exact (bare_of_file ha.file).tree_eq_none ha.place m
  bare := bare_of_file hb.file
  outerClosed := by rw [hb.node, ha.node, hclosed]
  innerClosed := by
    rw [hb.node]
    cases hn : S.node inner with
    | none => rfl
    | some nd => exact absurd (ha.settled.opened inner nd hn) hb.fresh

end Nested

/-- The client that made one directory in another. -/
theorem exists_arrived_nested : ∃ c S outer inner,
    Arrived (fun _ => Call.Naming) 65536 c S ∧ c.handles = [rootHandle] ∧ Nested S outer inner := by
  obtain ⟨c, S, outer, hc, hheld, hroomy, hadded⟩ := exists_arrived_naming
  have hplace : S.tree.placeFor [] "/a/b" = .ok ["b", "a"] :=
    Tree.placeFor_eq_ok (show Path.parentFile "/a/b" = some ("/a", "b") by decide) (by decide)
      (by decide) (by decide) (resolve_outer rfl hadded.place) hadded.place
  have hcall : Call.Naming c.handles (.createDirectory "/a/b" rootHandle) :=
    hheld ▸ ⟨List.mem_singleton_self _, rfl⟩
  obtain ⟨c', S', inner, hc', hheld', -, hadded'⟩ := hc.makes hadded.settled rfl hcall hplace
    hadded.place (bare_of_file hadded.file) hroomy
  have hne : outer ≠ rootSector := hadded.fresh
  exact ⟨c', S', outer, inner, hc', hheld'.trans hheld,
    Nested.of_added hadded (Shelf.node_opened_of_ne hne) hadded'⟩

/-- The client that then opened the inner directory and removed it. The outer one is empty again,
and still the parent of the inner one. -/
theorem exists_arrived_kept : ∃ c S outer inner, Arrived (fun _ => Call.Naming) 65536 c S ∧
    c.handles = [⟨inner, true, 0⟩, rootHandle] ∧ Settled S ∧ S.tree ["a"] = some (outer, true) ∧
    (∀ m, S.tree [m, "a"] = none) ∧ S.node outer = none ∧ (∃ nd, S.node inner = some nd) ∧
    (S.file inner).parent = outer := by
  obtain ⟨c, S, outer, inner, hc, hheld, h⟩ := exists_arrived_nested
  have hplace : S.tree.placeOf [] "/a/b" = .ok ["b", "a"] :=
    Tree.placeOf_eq_ok (show Path.parentFile "/a/b" = some ("/a", "b") by decide)
      (resolve_outer rfl h.outerPlace) h.outerPlace
  obtain ⟨c', S', hc', hheld', hlost⟩ := hc.removes_opened hheld h.settled h.resolve_inner hplace
    h.innerPlace h.bare h.innerClosed
  have hne : outer ≠ inner := fun heq => by
    have hplaces := h.settled.rooted.unique _ _ _ _ _ h.outerPlace (heq ▸ h.innerPlace)
    exact absurd hplaces (by decide)
  refine ⟨c', S', outer, inner, hc', hheld', hlost.settled, ?_, fun m => ?_, ?_, ?_, ?_⟩
  · rw [hlost.tree, Tree.set, Function.update_of_ne (by decide)]
    exact h.outerPlace
  · rw [hlost.tree, Tree.set]
    by_cases hm : m = "b"
    · rw [hm, Function.update_self]
    · rw [Function.update_of_ne (by simp [hm])]
      exact h.alone m hm
  · rw [hlost.node, Shelf.node_removed_of_ne hne, Shelf.node_opened_of_ne hne, h.outerClosed]
  · rw [hlost.node, Shelf.node_removed, Shelf.node_opened]
    exact ⟨_, rfl⟩
  · rw [hlost.parent]
    exact h.settled.rooted.parent _ _ _ _ _ h.innerPlace h.outerPlace

/-- The client that then removed the outer directory: it is gone, but the inner one, which is still
held, has it for its parent. -/
theorem exists_arrived_stray : ∃ c S s nd, Arrived (fun _ => Call.Naming) 65536 c S ∧
    ⟨s, true, 0⟩ ∈ c.handles ∧ Settled S ∧ S.node s = some nd ∧ (S.file s).parent ∉ S.live := by
  obtain ⟨c, S, outer, inner, hc, hheld, hS, houter, halone, hclosed, ⟨nd, hn⟩, hparent⟩ :=
    exists_arrived_kept
  have hplace : S.tree.placeOf [] "/a" = .ok ["a"] :=
    Tree.placeOf_name (by decide) (d := rootSector) rfl
  have hremove : Call.Naming c.handles (.remove "/a" rootHandle) :=
    hheld ▸ ⟨List.mem_cons_of_mem _ (List.mem_singleton_self _), rfl⟩
  obtain ⟨c', S', hc', hheld', hlost⟩ := hc.removes hS rfl hremove hplace houter
    (Shelf.not_inUse_of_closed hclosed) halone
  have hne : inner ≠ outer := fun heq => by
    rw [heq, hclosed] at hn
    cases hn
  refine ⟨c', S', inner, nd, hc', by rw [hheld', hheld]; exact List.mem_cons_self, hlost.settled,
    ?_, ?_⟩
  · rw [hlost.node, Shelf.node_removed_of_ne hne, hn]
  · rw [hlost.parent, hparent, hlost.live, Shelf.mem_live_removed]
    exact fun hin => hin.2 rfl hclosed

/-- Going up from an inode opens what it has for its parent, be that there or not. -/
theorem resolve_up_does {w : View} (hw : Keeps total w S) (hc : S.Counted) (hs : s ∈ S.live)
    (hn : S.node s = some nd) (hne : (S.file s).parent ≠ s) :
    Does Volume.Shows faults (Namespace.resolve (n := n) s "..") w fun found w' =>
      found = some ((S.file s).parent, true) ∧
        ∃ w₁, Keeps total w₁ S ∧ w' = w₁.opened (S.file s).parent := by
  have hpos := hc s nd hn
  have hseen : S.seen s = { nd with openers := nd.openers + 1 } := by rw [Shelf.seen, hn]; rfl
  have hrun : Namespace.resolve (n := n) s ".." = (do
      Inode.open s
      Namespace.walk [".."] s true) := by
    rw [Namespace.resolve, if_neg (by decide)]
    rfl
  rw [hrun, Namespace.walk, if_neg (by decide), if_pos rfl]
  refine Does.andThen ((Inode.open_stores hs).lower hw) ?_
  rintro - w₁ ⟨-, hw₁, rfl⟩
  refine Does.andThen ((Inode.parent_does (S := S.opened s) hs (S.node_opened s)).lower hw₁) ?_
  rintro a w₂ ⟨-, hw₂, ha, rfl⟩
  have ha' : a = (S.file s).parent := ha
  rw [← ha'] at hne ⊢
  refine Does.andThen Inode.open_does ?_
  rintro - w₃ rfl
  have hn₃ : (w₂.opened a).node s = some (S.seen s) := by
    simp only [View.opened, View.setNode, Function.update_of_ne (Ne.symm hne), hw₂.node,
      S.node_opened s]
  refine Does.andThen (Inode.close_does_shared hn₃ (hw₂.unloaded s) ?_) ?_
  · rw [hseen]
    exact Nat.succ_lt_succ hpos
  · rintro - w₄ rfl
    refine Does.pure ⟨rfl, w₂.setNode s (some nd), ?_, ?_⟩
    · have hback : (S.opened s).setNode s (some nd) = S := by
        simp only [Shelf.opened, Shelf.setNode, Function.update_idem, ← hn,
          Function.update_eq_self]
      exact hback ▸ hw₂.setNode hs
    · simp only [View.opened, View.setNode, hseen, Nat.add_sub_cancel,
        Function.update_of_ne hne, Function.update_comm hne]

/-- A sector that was no inode does not become one by being opened. -/
theorem notMem_live_of_opened {w : View} (hv : v.Shows (w.opened a)) (hw : Keeps total w S)
    (hS : Settled S) (ha : a ∉ S.live) : a ∉ v.shelf.live := by
  have hsame : ∀ h, View.Kept w (w.opened a) h := fun _ => ⟨rfl, fun _ _ _ => rfl⟩
  have hforest : Forest (w.opened a) S.live S.spare := hw.forest.of_kept rfl rfl fun h _ => hsame h
  have htree : treeOf v.view.file = S.tree := treeOf_congr fun p d hp => by
    have hd := hS.linked p d true hp
    rw [(hv.kept_of_wellFormed (hforest.wellFormed hd)).file, (hsame d).file, hw.file d hd]
  have hnode : w.node a = none := by
    rw [hw.node]
    cases hn : S.node a with
    | none => rfl
    | some nd => exact absurd (hS.opened a nd hn) ha
  rintro (⟨p, b, hp⟩ | ⟨nd, hn, hremoved, -⟩)
  · rw [htree] at hp
    exact ha (hS.linked p a b hp)
  · rw [hv.node] at hn
    simp only [View.opened, View.setNode, Function.update_self, hnode] at hn
    obtain rfl := Option.some.inj hn
    cases hremoved

/-- Without the count a path that is resolved may lead to no inode. -/
theorem not_finds_uncounted : ¬ ∀ c, Comes (fun _ => Call.Naming) c → ∀ cwd ∈ c.handles,
    cwd.isDir = true → ∀ path s b after,
      Namespace.resolve cwd.sector path c.volume = .ok (some (s, b)) after → after.HasInode s := by
  intro hall
  obtain ⟨c, S, s, nd, hc, hheld, hS, hn, hgone⟩ := exists_arrived_stray
  have hs := hS.opened s nd hn
  have hne : (S.file s).parent ≠ s := fun heq => hgone (by rwa [heq])
  obtain ⟨w, hvw, hw⟩ := hc.stores
  have hrun : Yields never (Namespace.resolve s "..") c.volume _ :=
    resolve_up_does hw hS.counted hs hn hne c.volume hvw
  obtain ⟨found, after, hrun, w', hvw', rfl, w₁, hw₁, rfl⟩ := hrun.ok_of_never
  exact notMem_live_of_opened hvw' hw₁ hS hgone (hall c hc.comes _ hheld rfl ".." _ _ _ hrun).live

end Client
end TieredVolume
