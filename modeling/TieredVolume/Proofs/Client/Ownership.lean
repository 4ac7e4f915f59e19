import TieredVolume.Proofs.Client.Course

/-!
Who owns which sector. Whatever a client did, every sector in use is the free map's or belongs to
the tree of exactly one inode that is still needed, at exactly one place: nothing leaks and nothing
is shared.
-/
namespace TieredVolume

variable {w : View} {live : Set Sector} {h s t : Sector}

namespace Forest

variable (hf : Forest w live ∅)

include hf

theorem disjoint_trees (hs : s ∈ live) (ht : t ∈ live) (hne : s ≠ t) :
    (w.tree s).Disjoint (w.tree t) := by
  intro b hb hb'
  obtain ⟨q, hq⟩ := View.mem_tree.mp hb
  obtain ⟨q', hq'⟩ := View.mem_tree.mp hb'
  exact hne (hf.unique s hs t ht q q' b hq hq').1

/-- Outside of the map the sectors in use are those of the trees. -/
theorem stored_iff : w.Stored t ↔ ∃ s ∈ live, t ∈ w.tree s := by
  constructor
  · intro ht
    obtain hspare | ⟨s, hs, q, hq⟩ := hf.owned t ht
    · exact hspare.elim
    · exact ⟨s, hs, View.mem_tree.mpr ⟨q, hq⟩⟩
  · rintro ⟨s, hs, hin⟩
    obtain ⟨q, hq⟩ := View.mem_tree.mp hin
    exact (hf.stored s hs q t hq).1

end Forest

/-- The free map's own sectors are in use. -/
theorem Volume.Sound.used_of_isMap {n : Nat} {v : Volume n} (hv : v.Sound)
    (ht : IsMap v.view.total t) : v.view.used t = true := by
  obtain ⟨hlow, hhigh⟩ := ht
  have hlt : t.block < v.map.total := Nat.lt_of_lt_of_le hhigh hv.room
  have hbit := hv.mapUsed t.block hlow hhigh
  simp only [Volume.view, hlt, hbit, decide_true, Bool.and_self]

/-- A sector is in use if it is the map's or belongs to the tree of an inode. -/
theorem Stores.used_iff {n total : Nat} {v : Volume n} {S : Shelf} (hv : Stores total v S)
    (hspare : S.spare = ∅) : v.view.used t = true ↔
      IsMap v.view.total t ∨ ∃ s ∈ S.live, t ∈ v.view.tree s := by
  obtain ⟨hsound, hw⟩ := hv.keeps_view
  have hf : Forest v.view S.live ∅ := hspare ▸ hw.forest
  rw [← hf.stored_iff]
  constructor
  · intro ht
    by_cases hmap : IsMap v.view.total t
    · exact .inl hmap
    · exact .inr ⟨ht, hmap⟩
  · rintro (hmap | ht)
    · exact hsound.used_of_isMap hmap
    · exact ht.1

namespace Client

variable {c : Client}

/-- Between any two calls the trees of the inodes that are needed have no sector twice and none in
common, and with the free map's own sectors they are just the sectors in use. -/
theorem Reached.ownership (h : Reached c) :
    (∀ s ∈ c.shelf.live, (c.volume.view.tree s).Nodup) ∧
    (∀ s ∈ c.shelf.live, ∀ t ∈ c.shelf.live, s ≠ t →
      (c.volume.view.tree s).Disjoint (c.volume.view.tree t)) ∧
    ∀ t, c.volume.view.used t = true ↔
      IsMap c.volume.view.total t ∨ ∃ s ∈ c.shelf.live, t ∈ c.volume.view.tree s := by
  obtain ⟨hv, hS⟩ := h.stands
  have hf : Forest c.volume.view c.shelf.live ∅ := hv.keeps_view.2.forest
  exact ⟨fun s hs => hf.nodup_tree hs, fun s hs t ht hne => hf.disjoint_trees hs ht hne,
    fun t => hv.used_iff rfl⟩

/-- The root and a file in it. -/
theorem Reached.ownership_written : ∃ (c : Client) (s : Sector), Reached c ∧
    c.shelf.tree ["f"] = some (s, false) ∧ (c.volume.view.tree s).Nodup ∧
    (c.volume.view.tree rootSector).Disjoint (c.volume.view.tree s) ∧
    (∀ t ∈ c.volume.view.tree s, c.volume.view.used t = true) ∧
    ∀ t, c.volume.view.used t = true ↔ IsMap c.volume.view.total t ∨
      ∃ s ∈ c.shelf.live, t ∈ c.volume.view.tree s := by
  obtain ⟨c, s, hc, -, hw⟩ := exists_written
  have hreached : Reached c := hc.reached fun _ _ _ h => h.1
  have hroot : rootSector ∈ c.shelf.live := hw.settled.linked [] _ true rfl
  obtain ⟨hnodup, hdisjoint, hused⟩ := hreached.ownership
  exact ⟨c, s, hreached, hw.place, hnodup s hw.live, hdisjoint _ hroot s hw.live hw.ne_root.symm,
    fun t ht => (hused t).mpr (.inr ⟨s, hw.live, ht⟩), hused⟩

/-- A creation that is refused changes no inode and none that is open, and every sector in use still
belongs to one of them. The directory may be left with a sector more: what it had bound for a new
entry stays bound. -/
theorem Comes.refused_creation {cwd : Handle} {new : Namespace.NewNode} {path : String}
    {why : Refusal} {after : Volume cacheCapacity} (h : Comes Call.Careful c)
    (hheld : cwd ∈ c.handles) (hdir : cwd.isDir = true)
    (hrun : (Namespace.createNode path cwd.sector new).run c.volume = .ok (.error why) after) :
    c.shelf.Like after.shelf ∧ ∀ t, after.view.used t = true ↔
      IsMap after.view.total t ∨ ∃ s ∈ c.shelf.live, t ∈ after.view.tree s := by
  obtain ⟨hv, hS⟩ := h.stands
  obtain ⟨p, hp⟩ := hS.directory cwd hheld hdir
  have hyields : Yields (fun _ => True) (Namespace.createNode path cwd.sector new).run c.volume _ :=
    Namespace.createNode_tries hS.toSettled hp (.inr fun _ => trivial)
      (fun _ _ _ _ _ _ => .inr trivial) c.volume hv
  obtain ⟨S', hv', rfl, -⟩ := hyields.of_ok hrun
  exact ⟨hv'.like_shelf hS.toSettled, fun t => hv'.used_iff rfl⟩

end Client
end TieredVolume
