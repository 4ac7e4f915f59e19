import TieredVolume.Proofs.Client.Course
import TieredVolume.Proofs.Client.Requests

/-!
Every request is answered. A device of three sectors has room for an empty volume; from then on no
request of a careful client ends in a fault as long as no file or directory is to reach further than
an index can and nothing is taken back that was not done. Lengths are told as they are: none is
too large for the word that it is kept in.
-/
namespace TieredVolume

variable {S S' S'' : Shelf} {handles : List Handle} {request : Request}
  {reply : Except Refusal Reply} {total : Nat}

/-- With three sectors there is one behind the header of the root and the map, and no sooner. -/
theorem FreeMap.reserved_lt_iff : reserved total < total ↔ 3 ≤ total := by
  simp only [reserved, freeMapStart, mapSectors, sectorBits]
  omega

namespace Request

/-- A careful request that surely does not end in a fault. -/
def Fitting (total : Nat) (S : Shelf) (held : List Handle) (request : Request) : Prop :=
  request.Careful total S held ∧ request.Fits S

/-- The lengths that a request gives, if it was carried out, are those that it asks for. -/
def Lengthens (S : Shelf) (reply : Except Refusal Reply) (S' : Shelf) : Request → Prop
  | call (.grow file size offset) => reply = .ok (.answer .done) →
    (S'.bytes file.sector).length = max (S.bytes file.sector).length (offset + size)
  | call (.writeAt file offset bytes) => ∀ count, reply = .ok (.answer (.count count)) → 0 < count →
    (S'.bytes file.sector).length = max (S.bytes file.sector).length (offset + bytes.length)
  | call (.create _ size _) => reply = .ok (.answer .done) →
    ∃ p s, S.tree p = none ∧ S'.tree p = some (s, false) ∧ (S'.bytes s).length = size
  | _ => True

end Request

/-- What a request leaves has the lengths that it asks for. -/
theorem Stands.lengthens (hS : Stands S handles) (hcareful : request.Careful total S handles)
    (heffect : request.Effect S reply S') (hS' : Stands S' (request.handles handles reply))
    (hl : S'.Like S'') : request.Lengthens S reply S'' := by
  have hlike : ∀ {s}, s ∈ S'.live → S''.bytes s = S'.bytes s := fun hs => by
    rw [Shelf.bytes, Shelf.bytes, hl.file _ hs]
  cases request with
  | call call =>
    cases call with
    | grow file size offset =>
      rintro rfl
      have hs : file.sector ∈ S'.live := hS'.live hcareful.1.1
      rcases heffect with ⟨-, rfl⟩ | ⟨hanswer, -⟩
      · rw [hlike hs, Shelf.bytes, Shelf.file_setBytes_self, length_extend]
      · cases hanswer
    | writeAt file offset bytes =>
      rintro count rfl hpos
      have hs : file.sector ∈ S'.live := hS'.live hcareful.1.1
      change Writes S file.sector offset bytes _ S' at heffect
      unfold Writes at heffect
      split at heffect
      · cases heffect.1
        cases hpos
      · rcases heffect with ⟨-, rfl⟩ | ⟨hanswer, -⟩
        · rw [hlike hs, Shelf.bytes, Shelf.file_setBytes_self, length_splice]
        · cases hanswer
    | create path size cwd =>
      rintro rfl
      rcases Makes.cases heffect with ⟨-, p, hcreated⟩ | ⟨⟨why, hanswer⟩, -⟩
      · obtain ⟨name, q, d, -, -, rfl, hq, hnone, -⟩ := id hcreated
        obtain ⟨s, hadded⟩ := hcreated.added hS.toSettled hq
        have hplace := hadded.place
        have hs : s ∈ S'.live := hS'.linked _ _ _ hplace
        refine ⟨name :: q, s, hnone, ?_, ?_⟩
        · rw [(hS'.toSettled.like hl).2]
          exact hplace
        · rw [hlike hs, Shelf.bytes, hadded.file, List.length_replicate]
          rfl
      · cases hanswer
    | _ => trivial
  | _ => trivial

namespace Client

variable {device : Device} {options : MountOptions}

theorem fitting_of_sure {c : Client} {call : Call} (hc : Comes Sure c)
    (hcall : Sure c.shelf c.handles call) :
    Request.Fitting c.volume.map.total c.shelf c.handles (.call call) :=
  ⟨hc.careful.stands.2.careful hcall.1, hcall.1.bounded, hcall.2⟩

/-- Formatting makes a volume, and after whatever requests every further one is answered: no length
is lost, and every file and directory stays within what an index can reach. -/
theorem Runs.answers (hd : device.Sound) (hmin : 3 ≤ device.blockCount)
    (hlimit : device.blockCount < sectorLimit) (hformat : options.format = true) :
    ∃ volume, Volume.mount device options = .ok (.ok volume) ∧
      ∀ c, Runs Request.Fitting { volume } c → ∀ request : Request,
        request.Fitting c.volume.map.total c.shelf c.handles →
        ∃ reply after, request.attempt.run c.volume = .ok reply after ∧
          request.Lengthens c.shelf reply after.shelf ∧
          ∀ s ∈ after.shelf.live, (after.shelf.bytes s).length ≤ maxSectors * sectorSize := by
  obtain ⟨volume, hmount, -⟩ := Volume.mount_eq_ok hd hlimit (FreeMap.reserved_lt_iff.mpr hmin) hformat
  refine ⟨volume, hmount, fun c hruns request hfitting => ?_⟩
  have hcareful : Runs Request.Careful { volume } c := hruns.mono fun _ _ _ _ h => h.1
  obtain ⟨hv, hS⟩ := hcareful.stands hd hlimit hformat hmount
  have hyields : Yields never request.attempt.run c.volume _ :=
    (hS.request_yields hv hfitting.1).mono_faults fun _ hnot => hnot hfitting.2
  obtain ⟨reply, after, hrun, S', heffect, hS', hl, hv'⟩ := hyields.ok_of_never
  exact ⟨reply, after, hrun, hS.lengthens hfitting.1 heffect hS' hl, fun s hs => hv'.length_le hs⟩

/-- In a file of five bytes two more are written over. -/
theorem Runs.answers_written : ∃ (device : Device) (options : MountOptions)
    (volume : Volume cacheCapacity) (c : Client) (file : Handle), device.Sound ∧
    3 ≤ device.blockCount ∧ device.blockCount < sectorLimit ∧ options.format = true ∧
    Volume.mount device options = .ok (.ok volume) ∧ Runs Request.Fitting { volume } c ∧
    (Request.call (.writeAt file 1 [7, 8])).Fitting c.volume.map.total c.shelf c.handles ∧
    (c.shelf.bytes file.sector).length = 5 ∧
    ∃ after, (Request.call (.writeAt file 1 [7, 8])).attempt.run c.volume =
      .ok (.ok (.answer (.count 2))) after ∧ (after.shelf.bytes file.sector).length = 5 := by
  obtain ⟨c, s, _, hc, hw, hsure, hrun⟩ := exists_overwriting
  have hbytes : (c.shelf.bytes s).length = 5 := by rw [hw.bytes]; rfl
  obtain ⟨device, options, volume, hd, hlimit, hformat, hmount, hruns⟩ := hc.runs fitting_of_sure
  have hmin : 3 ≤ device.blockCount :=
    FreeMap.reserved_lt_iff.mp (Volume.room_of_mount hformat hmount)
  have hfitting := fitting_of_sure hc hsure
  obtain ⟨volume', hmount', hanswers⟩ := Runs.answers hd hmin hlimit hformat
  obtain rfl : volume' = volume :=
    Except.ok.inj (Except.ok.inj (hmount'.symm.trans hmount))
  obtain ⟨reply, after, hreply, hlengthens, -⟩ := hanswers c hruns _ hfitting
  obtain ⟨rfl, rfl⟩ := EStateM.Result.ok.inj (hreply.symm.trans (Request.run_call hrun))
  have hlength := hlengthens 2 rfl (by decide)
  exact ⟨device, options, volume', c, ⟨s, false, 0⟩, hd, hmin, hlimit, hformat, hmount, hruns,
    hfitting, hbytes, _, hreply, hlength.trans (by rw [hbytes]; rfl)⟩

end Client
end TieredVolume
