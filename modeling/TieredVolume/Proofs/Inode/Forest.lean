import TieredVolume.Proofs.Inode.Tree

/-!
The forest of all inodes of a volume: every sector in use is the free map's, or set aside for an
inode to come, or belongs to one place of one inode. Linking a sector that was set aside keeps this.
-/
namespace TieredVolume

open View

variable {w w' w'' : View} {live spare : Set Sector} {h h' s fresh : Sector} {p : Place}

/-- The inodes in `live` own the sectors in use, up to those in `spare`, which are set aside. -/
structure Forest (w : View) (live spare : Set Sector) : Prop where
  header : ∀ h ∈ live, (w.header h).Is .data
  index : ∀ h ∈ live, ∀ p b, ¬ Place.Leaf p → w.link h p = some b →
    (Record.ofBlock (w.block b)).Is .indexBlock
  unique : ∀ h ∈ live, ∀ h' ∈ live, ∀ q q' s, w.sector h q = some s → w.sector h' q' = some s →
    h = h' ∧ q = q'
  stored : ∀ h ∈ live, ∀ q s, w.sector h q = some s → w.Stored s ∧ s ∉ spare
  setAside : ∀ s ∈ spare, w.Stored s
  owned : ∀ s, w.Stored s → s ∈ spare ∨ ∃ h ∈ live, ∃ q, w.sector h q = some s

namespace Forest

/-- The forest depends on which sectors are in use, on the links, and on the kinds of records. -/
theorem congr (hf : Forest w live spare) (htotal : w'.total = w.total) (hused : w'.used = w.used)
    (hheader : ∀ h ∈ live, (w'.header h).Is .data)
    (hlink : ∀ h ∈ live, ∀ p, w'.link h p = w.link h p)
    (hindex : ∀ h ∈ live, ∀ p b, ¬ Place.Leaf p → w.link h p = some b →
      (Record.ofBlock (w'.block b)).Is .indexBlock) : Forest w' live spare := by
  have hstored : ∀ s, w'.Stored s ↔ w.Stored s := fun s => by
    rw [Stored, Stored, htotal, hused]
  have hsector : ∀ h ∈ live, ∀ q, w'.sector h q = w.sector h q := fun h hh q => by
    cases q with
    | none => rfl
    | some p => exact hlink h hh p
  refine ⟨hheader, fun h hh p b hp hb => ?_, fun h hh h' hh' q q' s hq hq' => ?_,
    fun h hh q s hq => ?_, fun s hs => (hstored s).mpr (hf.setAside s hs), fun s hs => ?_⟩
  · rw [hlink h hh] at hb
    exact hindex h hh p b hp hb
  · rw [hsector h hh] at hq
    rw [hsector h' hh'] at hq'
    exact hf.unique h hh h' hh' q q' s hq hq'
  · rw [hsector h hh] at hq
    rw [hstored]
    exact hf.stored h hh q s hq
  · obtain hspare | ⟨h, hh, q, hq⟩ := hf.owned s ((hstored s).mp hs)
    · exact .inl hspare
    · exact .inr ⟨h, hh, q, by rw [hsector h hh, hq]⟩

theorem header_stored (hf : Forest w live spare) (hh : h ∈ live) : w.Stored h :=
  (hf.stored h hh none h rfl).1

theorem link_stored (hf : Forest w live spare) (hh : h ∈ live) (hs : w.link h p = some s) :
    w.Stored s :=
  (hf.stored h hh (some p) s hs).1

/-- A sector that was set aside belongs to no inode. -/
theorem sector_ne_of_spare (hf : Forest w live spare) (hs : s ∈ spare) (hh : h ∈ live)
    (q : Option Place) : w.sector h q ≠ some s := fun hq =>
  (hf.stored h hh q s hq).2 hs

/-- Writing to a sector that was set aside keeps all inodes. -/
theorem kept_put_spare {b : Block} (hf : Forest w live spare) (hs : s ∈ spare) (hh : h ∈ live) :
    Kept w (w.put s b) h :=
  kept_put (hf.sector_ne_of_spare hs hh)

/-- A step that keeps all inodes and sectors in use keeps the forest. -/
theorem of_kept (hf : Forest w live spare) (htotal : w'.total = w.total)
    (hused : w'.used = w.used) (hkept : ∀ h ∈ live, Kept w w' h) : Forest w' live spare := by
  refine hf.congr htotal hused (fun h hh => ?_) (fun h hh => (hkept h hh).link)
    fun h hh p b hp hb => ?_
  · rw [(hkept h hh).header]
    exact hf.header h hh
  · rw [(hkept h hh).block p b hb]
    exact hf.index h hh p b hp hb

theorem put_spare {b : Block} (hf : Forest w live spare) (hs : s ∈ spare) :
    Forest (w.put s b) live spare :=
  hf.of_kept rfl rfl fun _ hh => hf.kept_put_spare hs hh

/-- The inodes do not see a sector that is set aside. -/
theorem kept_take {b : Block} (hf : Forest w live spare) (hs : w.used s = false) (hh : h ∈ live) :
    Kept w (w.take s b) h := by
  have hne : ∀ q, w.sector h q ≠ some s := fun q hq => by
    have hused := (hf.stored h hh q s hq).1.1
    rw [hs] at hused
    cases hused
  obtain ⟨hheader, hblock⟩ := kept_put (b := b) hne
  exact ⟨hheader, hblock⟩

theorem take {b : Block} (hf : Forest w live spare) (hs : w.used s = false)
    (hmap : ¬ IsMap w.total s) : Forest (w.take s b) live (insert s spare) := by
  have hkept : ∀ h ∈ live, Kept w (w.take s b) h := fun h hh => hf.kept_take hs hh
  have hsector : ∀ h ∈ live, ∀ q, (w.take s b).sector h q = w.sector h q := fun h hh q => by
    cases q with
    | none => rfl
    | some p => exact (hkept h hh).link p
  have hstored : ∀ t, (w.take s b).Stored t ↔ t = s ∨ w.Stored t := fun t => by
    by_cases hts : t = s
    · subst hts
      simp [Stored, View.take, hmap]
    · simp [Stored, View.take, hts]
  refine ⟨fun h hh => ?_, fun h hh p b hp hb => ?_, fun h hh h' hh' q q' t hq hq' => ?_,
    fun h hh q t hq => ?_, fun t ht => ?_, fun t ht => ?_⟩
  · rw [(hkept h hh).header]
    exact hf.header h hh
  · rw [(hkept h hh).link] at hb
    rw [(hkept h hh).block p b hb]
    exact hf.index h hh p b hp hb
  · rw [hsector h hh] at hq
    rw [hsector h' hh'] at hq'
    exact hf.unique h hh h' hh' q q' t hq hq'
  · rw [hsector h hh] at hq
    obtain ⟨hst, hspare⟩ := hf.stored h hh q t hq
    refine ⟨(hstored t).mpr (.inr hst), fun hin => ?_⟩
    rcases hin with rfl | hin
    · rw [hst.1] at hs
      cases hs
    · exact hspare hin
  · rcases ht with rfl | ht
    · exact (hstored t).mpr (.inl rfl)
    · exact (hstored t).mpr (.inr (hf.setAside t ht))
  · rcases (hstored t).mp ht with rfl | ht
    · exact .inl (.inl rfl)
    · obtain hspare | ⟨h, hh, q, hq⟩ := hf.owned t ht
      · exact .inl (.inr hspare)
      · exact .inr ⟨h, hh, q, by rw [hsector h hh, hq]⟩

theorem kept_free (w : View) (s h : Sector) : Kept w (w.free s) h := ⟨rfl, fun _ _ _ => rfl⟩

theorem sector_free (w : View) (s h : Sector) (q : Option Place) :
    (w.free s).sector h q = w.sector h q := by
  cases q with
  | none => rfl
  | some p => exact (kept_free w s h).link p

theorem stored_free {t : Sector} : (w.free s).Stored t ↔ t ≠ s ∧ w.Stored t := by
  by_cases hts : t = s
  · subst hts
    simp [Stored, View.free]
  · simp [Stored, View.free, hts]

/-- Giving back a sector that was set aside. -/
theorem free_spare (hf : Forest w live (insert s spare)) (hs : s ∉ spare) :
    Forest (w.free s) live spare := by
  refine ⟨hf.header, fun h hh p b hp hb => ?_, fun h hh h' hh' q q' t hq hq' => ?_,
    fun h hh q t hq => ?_, fun t ht => ?_, fun t ht => ?_⟩
  · rw [(kept_free w s h).link] at hb
    exact hf.index h hh p b hp hb
  · rw [sector_free] at hq hq'
    exact hf.unique h hh h' hh' q q' t hq hq'
  · rw [sector_free] at hq
    obtain ⟨hst, hspare⟩ := hf.stored h hh q t hq
    exact ⟨stored_free.mpr ⟨fun hts => hspare (.inl hts), hst⟩, fun hin => hspare (.inr hin)⟩
  · exact stored_free.mpr ⟨fun hts => hs (hts ▸ ht), hf.setAside t (.inr ht)⟩
  · obtain ⟨hts, hst⟩ := stored_free.mp ht
    obtain (rfl | hspare) | ⟨h, hh, q, hq⟩ := hf.owned t hst
    · exact absurd rfl hts
    · exact .inl hspare
    · exact .inr ⟨h, hh, q, by rw [sector_free, hq]⟩

end Forest

/-! ### Linking -/

/-- One link, to a sector `fresh` without children, was set at the place `p` of the inode `h`. -/
structure Linked (live : Set Sector) (h : Sector) (p : Place) (fresh : Sector) (w w' : View) :
    Prop where
  total : w'.total = w.total
  used : w'.used = w.used
  node : w'.node = w.node
  header : ∀ h' ∈ live, w'.header h' = { w.header h' with index := (w'.header h').index }
  none : w.link h p = none
  top_self : p.up = [] → Sector.decode (w'.header h).index[p.slot.val] = some fresh
  top_other : ∀ h' ∈ live, ∀ slot : Fin 79, ¬ (h' = h ∧ slot = p.slot ∧ p.up = []) →
    Sector.decode (w'.header h').index[slot.val] = Sector.decode (w.header h').index[slot.val]
  step_self : ∀ c up, p.up = c :: up →
    ∃ b, w.trail h p.slot up = some b ∧ w'.child b c = some fresh
  step_other : ∀ h' ∈ live, ∀ (slot : Fin 79) up b c, (c :: up).length ≤ IndexPath.depthOf slot →
    w.trail h' slot up = some b → ¬ (h' = h ∧ slot = p.slot ∧ p.up = c :: up) →
    w'.child b c = w.child b c
  bare : ¬ p.Leaf → ∀ c, w'.child fresh c = Option.none
  index : ∀ b, (Record.ofBlock (w.block b)).Is .indexBlock →
    (Record.ofBlock (w'.block b)).Is .indexBlock
  data : ∀ h' ∈ live, ∀ q s, Place.Leaf q → w.link h' q = some s → w'.block s = w.block s
  others : ∀ h' ∈ live, h' ≠ h → Kept w w' h'
  fresh : w'.block fresh = w.block fresh

namespace Linked

theorem trail (hl : Linked live h p fresh w w') (hh : h' ∈ live) {slot : Fin 79}
    {up : List (Fin 64)} (hfits : up.length ≤ IndexPath.depthOf slot) :
    (h' = h ∧ slot = p.slot ∧ up = p.up → w'.trail h' slot up = some fresh) ∧
    (¬ (h' = h ∧ slot = p.slot ∧ up = p.up) → w'.trail h' slot up = w.trail h' slot up) := by
  induction up with
  | nil =>
    refine ⟨?_, fun hne => hl.top_other h' hh slot fun heq => hne ⟨heq.1, heq.2.1, heq.2.2.symm⟩⟩
    rintro ⟨rfl, rfl, hup⟩
    exact hl.top_self hup.symm
  | cons c up ih =>
    have hfits' := hfits
    rw [List.length_cons] at hfits'
    obtain ⟨ihself, ihother⟩ := ih (by omega)
    constructor
    · rintro ⟨rfl, rfl, hup⟩
      obtain ⟨b, hb, hchild⟩ := hl.step_self c up hup.symm
      have hne : ¬ (h' = h' ∧ p.slot = p.slot ∧ up = p.up) := by
        rintro ⟨-, -, heq⟩
        rw [← hup] at heq
        exact absurd (congrArg List.length heq) (Nat.ne_of_lt (Nat.lt_succ_self _))
      rw [View.trail, ihother hne, hb, Option.bind_some, hchild]
    · intro hne
      rw [View.trail, View.trail]
      by_cases hpre : h' = h ∧ slot = p.slot ∧ up = p.up
      · rw [ihself hpre, Option.bind_some]
        obtain ⟨rfl, rfl, rfl⟩ := hpre
        have hnone : w.trail h' p.slot p.up = Option.none := hl.none
        rw [hnone, Option.bind_none]
        exact hl.bare (by simp only [Place.Leaf]; omega) c
      · rw [ihother hpre]
        cases hb : w.trail h' slot up with
        | none => simp only [Option.bind_none]
        | some b =>
          rw [Option.bind_some, Option.bind_some]
          exact hl.step_other h' hh slot up b c hfits hb
            fun heq => hne ⟨heq.1, heq.2.1, heq.2.2.symm⟩

theorem link_self (hl : Linked live h p fresh w w') (hh : h ∈ live) :
    w'.link h p = some fresh :=
  (hl.trail hh p.fits).1 ⟨rfl, rfl, rfl⟩

theorem link_other (hl : Linked live h p fresh w w') (hh : h' ∈ live) {q : Place}
    (hne : ¬ (h' = h ∧ q = p)) : w'.link h' q = w.link h' q :=
  (hl.trail hh q.fits).2 fun ⟨h₁, h₂, h₃⟩ => hne ⟨h₁, Place.ext' h₂ h₃⟩

/-- What is linked afterwards was so before, or is the fresh sector at its place. -/
theorem link_cases (hl : Linked live h p fresh w w') (hh : h' ∈ live) {q : Place}
    (hs : w'.link h' q = some s) : h' = h ∧ q = p ∧ s = fresh ∨ w.link h' q = some s := by
  by_cases heq : h' = h ∧ q = p
  · obtain ⟨rfl, rfl⟩ := heq
    rw [hl.link_self hh] at hs
    exact .inl ⟨rfl, rfl, (Option.some.inj hs).symm⟩
  · rw [hl.link_other hh heq] at hs
    exact .inr hs

theorem link_mono (hl : Linked live h p fresh w w') (hh : h' ∈ live) {q : Place}
    (hs : w.link h' q = some s) : w'.link h' q = some s := by
  rw [hl.link_other hh, hs]
  rintro ⟨rfl, rfl⟩
  rw [hl.none] at hs
  cases hs

theorem forest (hl : Linked live h p fresh w w') (hf : Forest w live (insert fresh spare))
    (hh : h ∈ live) (hfresh : fresh ∉ spare)
    (hindex : ¬ p.Leaf → (Record.ofBlock (w.block fresh)).Is .indexBlock) :
    Forest w' live spare := by
  have hstored : ∀ s, w'.Stored s ↔ w.Stored s := fun s => by
    rw [Stored, Stored, hl.total, hl.used]
  have hcases : ∀ h' ∈ live, ∀ q s, w'.sector h' q = some s →
      h' = h ∧ q = some p ∧ s = fresh ∨ w.sector h' q = some s := fun h' hh' q s hs => by
    cases q with
    | none => exact .inr hs
    | some q =>
      rcases hl.link_cases hh' hs with ⟨h₁, h₂, h₃⟩ | hs
      · exact .inl ⟨h₁, by rw [h₂], h₃⟩
      · exact .inr hs
  have hmono : ∀ h' ∈ live, ∀ q s, w.sector h' q = some s → w'.sector h' q = some s :=
    fun h' hh' q s hs => by
      cases q with
      | none => exact hs
      | some q => exact hl.link_mono hh' hs
  have hold : ∀ h' ∈ live, ∀ q, w.sector h' q ≠ some fresh := fun h' hh' q =>
    hf.sector_ne_of_spare (.inl rfl) hh' q
  refine ⟨fun h' hh' => ?_, fun h' hh' q b hq hb => ?_, fun h₁ hh₁ h₂ hh₂ q q' s hq hq' => ?_,
    fun h' hh' q s hq => ?_, fun s hs => (hstored s).mpr (hf.setAside s (.inr hs)),
    fun s hs => ?_⟩
  · rw [hl.header h' hh']
    exact (hf.header h' hh').withIndex _
  · apply hl.index
    rcases hl.link_cases hh' hb with ⟨rfl, rfl, rfl⟩ | hb
    · exact hindex hq
    · exact hf.index h' hh' q b hq hb
  · rcases hcases h₁ hh₁ q s hq with ⟨rfl, rfl, rfl⟩ | hq
    · rcases hcases h₂ hh₂ q' s hq' with ⟨rfl, rfl, -⟩ | hq'
      · exact ⟨rfl, rfl⟩
      · exact absurd hq' (hold h₂ hh₂ q')
    · rcases hcases h₂ hh₂ q' s hq' with ⟨rfl, rfl, rfl⟩ | hq'
      · exact absurd hq (hold h₁ hh₁ q)
      · exact hf.unique h₁ hh₁ h₂ hh₂ q q' s hq hq'
  · rw [hstored]
    rcases hcases h' hh' q s hq with ⟨rfl, rfl, rfl⟩ | hq
    · exact ⟨hf.setAside s (.inl rfl), hfresh⟩
    · obtain ⟨hst, hspare⟩ := hf.stored h' hh' q s hq
      exact ⟨hst, fun hin => hspare (.inr hin)⟩
  · obtain (rfl | hspare) | ⟨h', hh', q, hq⟩ := hf.owned s ((hstored s).mp hs)
    · exact .inr ⟨h, hh, some p, hl.link_self hh⟩
    · exact .inl hspare
    · exact .inr ⟨h', hh', q, hmono h' hh' q s hq⟩

end Linked
end TieredVolume
