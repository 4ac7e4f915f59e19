import TieredVolume.Proofs.Client.Course
import TieredVolume.Proofs.Client.Looks
import TieredVolume.Proofs.Remount

/-!
Remounting. Whatever a careful client did, once no removed inode is open any more, shutting the
volume down and mounting its device again brings back the same volume: the same sectors are in use,
and all that can be seen is seen again.
-/
namespace TieredVolume
namespace Client

variable {c : Client} {options : MountOptions}

/-- A look sees on the volume that was mounted again what it saw before. -/
theorem Comes.remount (h : Comes Call.Careful c)
    (hstays : ∀ s nd, c.shelf.node s = some nd → nd.removed = false)
    (hformat : options.format = false) :
    ∃ down again, Volume.shutdown c.volume = .ok () down ∧
      Volume.mount down.cache.device options = .ok (.ok again) ∧
      again.map = c.volume.map ∧ again.shelf.live = c.shelf.live ∧
      ∀ look : Look, look.Suits c.shelf → ∃ left left',
        look.run c.volume = .ok (look.sight c.shelf) left ∧
        look.run again = .ok (look.sight c.shelf) left' := by
  obtain ⟨hv, hS⟩ := h.stands
  obtain ⟨w, hvw, hw⟩ := id hv
  have hroot : rootSector ∈ c.shelf.live := hS.linked [] rootSector true rfl
  have hidle := hS.toSettled.idle hstays
  have hdown : Yields never Volume.shutdown c.volume _ := Volume.shutdown_yields hvw
  obtain ⟨⟨⟩, down, hrun, hdw, hmap, hclean⟩ := hdown.ok_of_never
  obtain ⟨again, hmount, hagain, hmap'⟩ := Volume.mount_stores ⟨w, hdw, hw⟩ hroot
    hdw.coherent.sound hdw.sound.cache.blockCount hclean hformat
  have hlike := hagain.like_shelf hidle
  refine ⟨down, again, hrun, hmount, hmap'.trans hmap, hlike.live.symm, fun look hlook => ?_⟩
  have hsuits : look.Suits c.shelf.idle := by
    cases look <;> exact hlook
  have hsame : look.sight c.shelf.idle = look.sight c.shelf := by
    cases look <;> rfl
  obtain ⟨left, hx⟩ := Look.run_eq_ok hS.toSettled hv hlook
  obtain ⟨left', hx'⟩ := Look.run_eq_ok hidle hagain hsuits
  exact ⟨left, left', hx, hsame ▸ hx'⟩

/-- A file that was written to is found again, with its bytes. -/
theorem Comes.remount_written : ∃ (c : Client) (s : Sector) (down again : Volume cacheCapacity),
    Comes Call.Careful c ∧ (∀ t nd, c.shelf.node t = some nd → nd.removed = false) ∧
    Volume.shutdown c.volume = .ok () down ∧
    Volume.mount down.cache.device {} = .ok (.ok again) ∧ again.map = c.volume.map ∧
    again.shelf.live = c.shelf.live ∧
    (∃ left, (Look.find "/f").run again = .ok (.place (some (s, false))) left) ∧
    (∃ left, (Look.parent s).run again = .ok (.parent rootSector) left) ∧
    ∃ left, (Look.bytes s 1 10).run again = .ok (.bytes [2, 3, 0, 0]) left := by
  obtain ⟨c, s, hc, -, hw⟩ := exists_written
  have hcomes := hc.careful
  have hformat : ({} : MountOptions).format = false := rfl
  obtain ⟨down, again, hdown, hmount, hmap, hlive, hlook⟩ := hcomes.remount hw.stays hformat
  obtain ⟨-, left, -, hfind⟩ := hlook (.find "/f") trivial
  obtain ⟨-, left₁, -, hparent⟩ := hlook (.parent s) hw.live
  obtain ⟨-, left₂, -, hbytes⟩ := hlook (.bytes s 1 10) hw.live
  refine ⟨c, s, down, again, hcomes, hw.stays, hdown, hmount, hmap, hlive, ⟨left, ?_⟩, ⟨left₁, ?_⟩,
    left₂, ?_⟩
  · rwa [Look.sight, hw.find] at hfind
  · rwa [Look.sight, hw.parent] at hparent
  · rwa [Look.sight, hw.bytes] at hbytes

end Client
end TieredVolume
