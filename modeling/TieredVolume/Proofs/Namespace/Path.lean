import TieredVolume.Namespace.Path

/-!
Paths that end in a name: how they are walked, and how they are taken apart again.
-/
namespace TieredVolume
namespace Path

variable {dir name : String} {cs ds : List Char}

theorem pieces_ne_nil (cs : List Char) : pieces cs ≠ [] := by
  cases cs with
  | nil => exact List.cons_ne_nil _ _
  | cons c cs =>
    rw [pieces]
    split
    · exact List.cons_ne_nil _ _
    · split
      · exact List.cons_ne_nil _ _
      · exact List.cons_ne_nil _ _

theorem pieces_of_notMem (h : '/' ∉ cs) : pieces cs = [cs] := by
  induction cs with
  | nil => rfl
  | cons c cs ih =>
    have hc : c ≠ '/' := fun heq => h (heq ▸ List.mem_cons_self)
    rw [pieces, if_neg hc, ih fun hin => h (List.mem_cons_of_mem _ hin)]

/-- A slash ends the piece before it. -/
theorem pieces_append (cs ds : List Char) : pieces (cs ++ '/' :: ds) = pieces cs ++ pieces ds := by
  induction cs with
  | nil => exact (pieces.eq_2 '/' ds).trans (if_pos rfl)
  | cons c cs ih =>
    rw [List.cons_append, pieces, pieces, ih]
    by_cases hc : c = '/'
    · rw [if_pos hc, if_pos hc, List.cons_append]
    · rw [if_neg hc, if_neg hc]
      cases hp : pieces cs with
      | nil => exact absurd hp (pieces_ne_nil cs)
      | cons p ps => rfl

theorem toList_join : (dir ++ "/" ++ name).toList = dir.toList ++ '/' :: name.toList := by
  simp [String.toList_append]

/-- Behind the components of a directory comes the last name. -/
theorem components_join (hname : '/' ∉ name.toList) (hne : name ≠ "") :
    components (dir ++ "/" ++ name) = components dir ++ [name] := by
  have hlist : name.toList ≠ [] := by simpa using hne
  simp only [components, toList_join, pieces_append, pieces_of_notMem hname, List.filter_append,
    List.map_append]
  simp [hlist]

theorem isAbsolute_join (hdir : isAbsolute dir = true) : isAbsolute (dir ++ "/" ++ name) = true := by
  simp only [isAbsolute, decide_eq_true_eq] at hdir ⊢
  rw [toList_join]
  cases hd : dir.toList with
  | nil => rw [hd] at hdir; cases hdir
  | cons c cs => rw [hd] at hdir; exact hdir

/-- A directory that is not just slashes is found again in front of the last name. -/
theorem parentFile_join (hname : '/' ∉ name.toList) (hne : name ≠ "")
    (hdir : ¬ dir.toList.all (· = '/')) : parentFile (dir ++ "/" ++ name) = some (dir, name) := by
  have hall : ∀ c ∈ name.toList.reverse, decide (c ≠ '/') = true := fun c hc =>
    decide_eq_true fun heq => hname (heq ▸ List.mem_reverse.mp hc)
  obtain ⟨c, cs, hcs⟩ : ∃ c cs, name.toList.reverse = c :: cs :=
    List.exists_cons_of_ne_nil (by simpa using hne)
  have hc : ¬ c = '/' := fun heq => hname (List.mem_reverse.mp (hcs ▸ heq ▸ List.mem_cons_self))
  -- seen from its end, the path starts with the name
  have hreverse : (dir.toList ++ '/' :: name.toList).reverse =
      c :: (cs ++ '/' :: dir.toList.reverse) := by
    rw [List.reverse_append, List.reverse_cons, List.append_assoc, hcs]
    rfl
  have hname' : c :: (cs ++ '/' :: dir.toList.reverse) =
      name.toList.reverse ++ '/' :: dir.toList.reverse := by
    rw [hcs, List.cons_append]
  have hsplit : splitLast (dir.toList ++ '/' :: name.toList) = some (dir.toList, name.toList) := by
    rw [splitLast, hreverse, List.dropWhile_cons_of_neg (by simpa using hc)]
    dsimp only
    rw [hname', List.takeWhile_append_of_pos hall, List.dropWhile_append_of_pos hall]
    simp [hdir]
  rw [parentFile, toList_join, hsplit]
  simp

end Path
end TieredVolume
