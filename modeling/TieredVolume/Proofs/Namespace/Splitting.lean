import Mathlib.Data.List.DropRight
import TieredVolume.Proofs.Namespace.Path

/-!
The last name of a path against its components. Seen from its end, a path is slashes, then a name,
and then the directory with one more slash behind it, or nothing; so the directory has the
components of the path but the last.
-/
namespace TieredVolume
namespace Path

variable {path dir name : String} {ns slashes : List Char}

/-! ### Components between slashes -/

theorem filter_pieces_slashes (h : ∀ c ∈ slashes, c = '/') :
    (pieces slashes).filter (· ≠ []) = [] := by
  induction slashes with
  | nil => rfl
  | cons c cs ih =>
    rw [pieces, if_pos (h c List.mem_cons_self), List.filter_cons_of_neg (by simp)]
    exact ih fun c hc => h c (List.mem_cons_of_mem _ hc)

theorem filter_pieces_append (cs ds : List Char) : (pieces (cs ++ '/' :: ds)).filter (· ≠ []) =
    (pieces cs).filter (· ≠ []) ++ (pieces ds).filter (· ≠ []) := by
  rw [pieces_append, List.filter_append]

/-- Slashes behind a name are not seen. -/
theorem filter_pieces_name (hname : '/' ∉ ns) (hne : ns ≠ []) (h : ∀ c ∈ slashes, c = '/') :
    (pieces (ns ++ slashes)).filter (· ≠ []) = [ns] := by
  have halone : (pieces ns).filter (· ≠ []) = [ns] := by
    rw [pieces_of_notMem hname]
    exact List.filter_cons_of_pos (by simpa using hne)
  cases slashes with
  | nil => rw [List.append_nil, halone]
  | cons c cs =>
    obtain rfl := h c List.mem_cons_self
    rw [filter_pieces_append, halone,
      filter_pieces_slashes fun c hc => h c (List.mem_cons_of_mem _ hc), List.append_nil]

/-! ### How a path is built -/

/-- The directory that is told of the characters in front of the last slash. -/
def directoryOf (ds : List Char) : List Char := if ds.all (· = '/') then ['/'] else ds

theorem directoryOf_ne_nil (ds : List Char) : directoryOf ds ≠ [] := by
  unfold directoryOf
  split
  · exact List.cons_ne_nil _ _
  · rintro rfl
    contradiction

theorem filter_pieces_directoryOf (ds : List Char) :
    (pieces (directoryOf ds)).filter (· ≠ []) = (pieces ds).filter (· ≠ []) := by
  unfold directoryOf
  split
  · rename_i hall
    have hnone : (pieces ds).filter (· ≠ []) = [] := filter_pieces_slashes (by simpa using hall)
    rw [hnone]
    rfl
  · rfl

theorem head?_directoryOf (ds cs : List Char) :
    (directoryOf ds).head? = some '/' ↔ (ds ++ '/' :: cs).head? = some '/' := by
  unfold directoryOf
  cases ds with
  | nil => simp
  | cons d ds =>
    split
    · rename_i hall
      simp only [List.all_cons, Bool.and_eq_true, decide_eq_true_eq] at hall
      simp [hall.1]
    · rfl

/-- What splitting makes of a path: nothing of slashes alone, and else the last name, with the
directory in front of it if there is a slash between. -/
inductive Splits : (path : List Char) → Option (List Char × List Char) → Prop where
  | slashes {slashes : List Char} : (∀ c ∈ slashes, c = '/') → Splits slashes none
  | alone {name slashes : List Char} : '/' ∉ name → name ≠ [] → (∀ c ∈ slashes, c = '/') →
    Splits (name ++ slashes) (some ([], name))
  | below {ds name slashes : List Char} : '/' ∉ name → name ≠ [] → (∀ c ∈ slashes, c = '/') →
    Splits (ds ++ '/' :: (name ++ slashes)) (some (directoryOf ds, name))

theorem slash_notMem_takeWhile (cs : List Char) : '/' ∉ cs.takeWhile (· ≠ '/') := fun hin => by
  simpa using List.mem_takeWhile_imp hin

theorem splits_splitLast (cs : List Char) : Splits cs (splitLast cs) := by
  -- from the end: the slashes, the name, and what is in front of it
  have hback : cs.rdropWhile (· = '/') ++ cs.rtakeWhile (· = '/') = cs :=
    List.rdropWhile_append_rtakeWhile
  have hslashes : ∀ c ∈ cs.rtakeWhile (· = '/'), c = '/' := fun c hc => by
    simpa using List.mem_rtakeWhile_imp hc
  rw [List.rdropWhile] at hback
  unfold splitLast
  cases hcore : cs.reverse.dropWhile (· = '/') with
  | nil =>
    rw [hcore, List.reverse_nil, List.nil_append] at hback
    rw [hback] at hslashes
    exact .slashes hslashes
  | cons c core =>
    have hc : c ≠ '/' := by
      have hhead := List.head_dropWhile_not (· = '/') (l := cs.reverse) (hcore ▸ List.cons_ne_nil _ _)
      simpa [hcore] using hhead
    have hname : '/' ∉ ((c :: core).takeWhile (· ≠ '/')).reverse := fun hin =>
      slash_notMem_takeWhile _ (List.mem_reverse.mp hin)
    have hne : ((c :: core).takeWhile (· ≠ '/')).reverse ≠ [] := by
      rw [List.takeWhile_cons_of_pos (by simpa using hc)]
      simp
    have hfront := List.takeWhile_append_dropWhile (p := (· ≠ '/')) (l := c :: core)
    rw [hcore] at hback
    dsimp only
    generalize hns : (c :: core).takeWhile (· ≠ '/') = ns at hname hne hfront ⊢
    cases hrest : (c :: core).dropWhile (· ≠ '/') with
    | nil =>
      rw [hrest, List.append_nil] at hfront
      rw [← hfront] at hback
      rw [← hback]
      exact .alone hname hne hslashes
    | cons d rest =>
      have hd : d = '/' := by
        have hhead := List.head_dropWhile_not (· ≠ '/') (l := c :: core)
          (hrest ▸ List.cons_ne_nil _ _)
        simp only [hrest, List.head_cons] at hhead
        simpa using hhead
      have hwhole : rest.reverse ++ '/' :: (ns.reverse ++ cs.rtakeWhile (· = '/')) = cs := by
        rw [hrest, hd] at hfront
        rw [← hfront] at hback
        simpa using hback
      have hdir : (if rest.all (· = '/') then ['/'] else rest.reverse) =
          directoryOf rest.reverse := by
        rw [directoryOf, List.all_reverse]
      dsimp only
      rw [hdir]
      conv => arg 1; rw [← hwhole]
      exact .below hname hne hslashes

/-! ### What is told of a path -/

/-- How a path is put together of a directory and a last name. -/
structure LastName (path dir name : String) : Prop where
  nonempty : name ≠ ""
  slashless : '/' ∉ name.toList
  components : components path = components dir ++ [name]
  absolute : isAbsolute dir = isAbsolute path
  bare : dir = "" ↔ '/' ∉ path.toList.rdropWhile (· = '/')

/-- A path without components is not split. -/
theorem parentFile_eq_none_iff : parentFile path = none ↔ components path = [] := by
  have hsplits := splits_splitLast path.toList
  rw [parentFile, Option.map_eq_none_iff, components, List.map_eq_nil_iff]
  generalize path.toList = cs at hsplits ⊢
  generalize splitLast cs = split at hsplits ⊢
  cases hsplits with
  | slashes h => exact iff_of_true rfl (filter_pieces_slashes h)
  | alone hname hne h =>
    rw [filter_pieces_name hname hne h]
    exact iff_of_false (Option.some_ne_none _) (List.cons_ne_nil _ _)
  | below hname hne h =>
    rw [filter_pieces_append, filter_pieces_name hname hne h]
    exact iff_of_false (Option.some_ne_none _)
      (List.append_ne_nil_of_right_ne_nil _ (List.cons_ne_nil _ _))

/-- Only the slashes behind the last name are stripped. -/
theorem rdropWhile_name (front : List Char) (hname : '/' ∉ ns) (hne : ns ≠ [])
    (h : ∀ c ∈ slashes, c = '/') :
    (front ++ (ns ++ slashes)).rdropWhile (· = '/') = front ++ ns := by
  obtain ⟨c, cs, hcs⟩ : ∃ c cs, ns.reverse = c :: cs :=
    List.exists_cons_of_ne_nil (by simpa using hne)
  have hc : c ≠ '/' := fun heq => hname (List.mem_reverse.mp (hcs ▸ heq ▸ List.mem_cons_self))
  have hslashes : ∀ c ∈ slashes.reverse, decide (c = '/') = true := fun c hc =>
    decide_eq_true (h c (List.mem_reverse.mp hc))
  rw [List.rdropWhile, ← List.append_assoc, List.reverse_append,
    List.dropWhile_append_of_pos hslashes, List.reverse_append, hcs, List.cons_append,
    List.dropWhile_cons_of_neg (by simpa using hc), ← List.cons_append, ← hcs,
    ← List.reverse_append, List.reverse_reverse]

theorem lastName_of_parentFile (h : parentFile path = some (dir, name)) : LastName path dir name := by
  have hsplits := splits_splitLast path.toList
  obtain ⟨⟨ds, ns⟩, hsplit, heq⟩ := Option.map_eq_some_iff.mp h
  obtain ⟨rfl, rfl⟩ := Prod.mk.inj heq
  rw [hsplit] at hsplits
  generalize hcs : path.toList = cs at hsplits
  cases hsplits with
  | @alone ns slashes hname hne hslashes =>
    have hhead : (ns ++ slashes).head? ≠ some '/' := by
      cases ns with
      | nil => exact absurd rfl hne
      | cons c cs => exact fun heq => hname (Option.some.inj heq ▸ List.mem_cons_self)
    have hstripped : (ns ++ slashes).rdropWhile (· = '/') = ns :=
      rdropWhile_name [] hname hne hslashes
    refine ⟨by simpa using hne, by simpa using hname, ?_, ?_, ?_⟩
    · rw [components, hcs, filter_pieces_name hname hne hslashes]
      rfl
    · rw [isAbsolute, isAbsolute, hcs, decide_eq_false hhead]
      rfl
    · rw [hcs, hstripped]
      exact iff_of_true rfl hname
  | @below ds ns slashes hname hne hslashes =>
    have hstripped := rdropWhile_name (ds ++ ['/']) hname hne hslashes
    rw [List.append_assoc, List.append_assoc] at hstripped
    refine ⟨by simpa using hne, by simpa using hname, ?_, ?_, ?_⟩
    · rw [components, components, hcs, filter_pieces_append, filter_pieces_name hname hne hslashes,
        String.toList_ofList, filter_pieces_directoryOf, List.map_append]
      rfl
    · rw [isAbsolute, isAbsolute, hcs, String.toList_ofList]
      exact decide_eq_decide.mpr (head?_directoryOf ds _)
    · rw [hcs]
      refine iff_of_false (by simpa using directoryOf_ne_nil ds) (not_not.mpr ?_)
      exact hstripped ▸ List.mem_append_right _ List.mem_cons_self

/-! ### Names alone -/

theorem components_name (hne : name ≠ "") (hname : '/' ∉ name.toList) : components name = [name] := by
  have hlist : name.toList ≠ [] := by simpa using hne
  rw [components, pieces_of_notMem hname, List.filter_cons_of_pos (by simpa using hlist)]
  simp

theorem isAbsolute_name (hname : '/' ∉ name.toList) : isAbsolute name = false :=
  decide_eq_false fun hhead => hname (List.mem_of_mem_head? hhead)

theorem LastName.ne_empty (h : LastName path dir name) : path ≠ "" := by
  rintro rfl
  have hnil := h.components
  rw [show Path.components "" = [] from rfl] at hnil
  exact List.append_ne_nil_of_right_ne_nil _ (List.cons_ne_nil _ _) hnil.symm

end Path
end TieredVolume
