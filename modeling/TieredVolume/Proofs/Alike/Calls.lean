import TieredVolume.Proofs.Alike.Namespace
import TieredVolume.Proofs.Client.Requests

/-!
What a client asks of a volume, twice over. The answer is the same whatever the sizes of the caches
are, and whatever is on the devices in sectors that are not in use.
-/
namespace TieredVolume

open Attempt

variable {total : Nat} {w : View} {S : Shelf} {handles : List Handle} {s : Sector} {nd : Node}
  {call : Call} {query : Query} {request : Request} {m : Mark}

theorem Inode.node_alike (hw : Keeps total w S) (hn : S.node s = some nd) :
    Alike (fun n => Inode.node (n := n) s) w :=
  Alike.of_does ((node_does_of_unloaded (by rw [hw.node, hn]) (hw.unloaded s)).mono
    fun _ _ h => ⟨h.1, h.2.2⟩)

namespace Mark

theorem lower_alike (count : Node → Nat) {g : Node → Node} {e : Fault} (hw : Keeps total w S)
    (hn : S.node s = some nd) (hg : nd.loaded = none → (g nd).loaded = none) :
    Alike (fun n => do
      let node ← Inode.node (n := n) s
      if count node = 0 then throw e
      Inode.setNode s (g node)) w := by
  have hwn : w.node s = some nd := by rw [hw.node, hn]
  refine Alike.andThen (Inode.node_alike hw hn) (Inode.node_does_of_unloaded hwn (hw.unloaded s)) ?_
  rintro nd' w' ⟨rfl, hbare, rfl⟩
  by_cases hzero : count nd' = 0
  · simp only [if_pos hzero]
    exact InStep.andThen InStep.throw fun _ _ _ => False.elim
  · simp only [if_neg hzero]
    exact Alike.of_move (Inode.setNode_does (hw.unloaded s) (hg hbare))

theorem run_alike (hw : Keeps total w S) (hn : S.node s = some nd) :
    Alike (fun n => m.run (n := n) s) w := by
  cases m with
  | denyWrite => exact Inode.updateNode_alike hw hn id
  | attach => exact Inode.updateNode_alike hw hn id
  | enterCwd => exact Inode.updateNode_alike hw hn id
  | allowWrite => exact lower_alike (·.denials) hw hn id
  | detach => exact lower_alike (·.descriptors) hw hn id
  | leaveCwd => exact lower_alike (·.cwdUsers) hw hn id

end Mark

namespace Request

/-- What goes on in the background, and nobody waits for. -/
def isIdle : Request → Bool
  | .call .flush | .call .readAhead | .prefetch _ => true
  | _ => false

/-- Nothing of it is seen. -/
theorem idle_does (request : Request) (hidle : request.isIdle = true)
    (hsector : ∀ s, request = .prefetch s → s.block < w.total) :
    ∃ reply, ∀ {n : Nat}, Tries (Volume.Shows (n := n)) never request.attempt w
      (fun r w' => r = reply ∧ w' = w) fun _ _ => False := by
  match request with
  | .call .flush =>
    refine ⟨.answer .done, Tries.bind (Tries.bind (Tries.always (Volume.flushAll_does.mono ?_)))⟩
    exact fun _ _ hquiet => Tries.pure (Tries.pure ⟨rfl, hquiet⟩)
  | .call .readAhead =>
    refine ⟨.answer .done, Tries.bind (Tries.bind (Tries.always (Volume.serveReadAhead_does.mono ?_)))⟩
    exact fun _ _ hquiet => Tries.pure (Tries.pure ⟨rfl, hquiet⟩)
  | .prefetch s =>
    refine ⟨.done, Tries.bind (Tries.always ((Volume.prefetch_does (hsector s rfl)).mono ?_))⟩
    exact fun _ _ hquiet => Tries.pure ⟨rfl, hquiet⟩

end Request

namespace Stands

variable (hS : Stands S handles) (hw : Keeps total w S)

include hS hw

theorem query_alike (hheld : query.handle ∈ handles) : Alike (fun n => query.run (n := n)) w := by
  obtain ⟨nd, hn⟩ := hS.exists_node hheld
  have hs := hS.live hheld
  cases query with
  | parent handle => exact (Inode.parent_alike hs hn hw).map
  | sectorAt handle offset => exact (Inode.sectorAt_alike hs hn hw).map
  | node handle => exact (Inode.node_alike hw hn).map
  | isEmpty dir => exact (Directory.isEmpty_alike hs hn hw).map
  | lookup dir name => exact (Directory.lookup_alike hs hn hw).map

theorem call_alike (hcall : call.Possible handles) : Alike (fun n => (call.attempt (n := n)).run) w := by
  cases call with
  | root => exact InStep.always_bind Inode.open_alike.map
  | create path size cwd =>
    obtain ⟨c, hc⟩ := hS.directory cwd hcall.1 hcall.2
    exact InStep.attempt_map (Namespace.createNode_alike hS.toSettled hc hw)
  | createDirectory path cwd =>
    obtain ⟨c, hc⟩ := hS.directory cwd hcall.1 hcall.2
    exact InStep.attempt_map (Namespace.createNode_alike hS.toSettled hc hw)
  | openFile path cwd =>
    obtain ⟨c, hc⟩ := hS.directory cwd hcall.1 hcall.2
    exact InStep.attempt_map (Namespace.openFile_alike hS.toSettled hc hw)
  | openDirectory path cwd =>
    obtain ⟨c, hc⟩ := hS.directory cwd hcall.1 hcall.2
    exact InStep.attempt_map (Namespace.openDirectory_alike hS.toSettled hc hw)
  | resolve path cwd =>
    obtain ⟨c, hc⟩ := hS.directory cwd hcall.1 hcall.2
    refine InStep.always_bind (InStep.andThen (Namespace.resolve_alike hS.toSettled hc hw) ?_)
    rintro (- | ⟨s, isDir⟩) _ _ hmet
    · exact InStep.pure hmet
    · exact InStep.pure hmet
  | remove path cwd =>
    obtain ⟨c, hc⟩ := hS.directory cwd hcall.1 hcall.2
    exact InStep.attempt_map (Namespace.remove_alike hS.toSettled hc hw)
  | readNext dir =>
    obtain ⟨nd, hn⟩ := hS.exists_node hcall.1
    exact InStep.always_bind (Directory.nextFrom_alike (hS.live hcall.1) hn hw).map
  | readAt file offset count =>
    obtain ⟨nd, hn⟩ := hS.exists_node hcall
    exact InStep.always_bind (Inode.readAt_alike (hS.live hcall) hn hw).map
  | writeAt file offset bytes =>
    obtain ⟨nd, hn⟩ := hS.exists_node hcall.1
    exact InStep.attempt_map (Inode.writeAt_alike (hS.live hcall.1) hn hw)
  | grow file size offset =>
    obtain ⟨nd, hn⟩ := hS.exists_node hcall.1
    exact InStep.attempt_map (Inode.grow_alike (hS.live hcall.1) hn hw)
  | allocateAt file offset =>
    obtain ⟨nd, hn⟩ := hS.exists_node hcall
    exact InStep.attempt_map (Inode.allocateAt_alike (hS.live hcall) hn hw)
  | length file =>
    obtain ⟨nd, hn⟩ := hS.exists_node hcall
    exact InStep.always_bind (Inode.length_alike (hS.live hcall) hn hw).map
  | mark m handle =>
    obtain ⟨nd, hn⟩ := hS.exists_node hcall.1
    exact InStep.always_bind (Mark.run_alike hw hn).map
  | clone handle => exact InStep.always_bind Inode.open_alike.map
  | close handle =>
    obtain ⟨nd, hn⟩ := hS.exists_node hcall
    exact InStep.always_bind (Inode.close_alike hw (hS.live hcall) hn).map
  | shutdown => exact InStep.always_bind (Alike.of_move Volume.shutdown_does).map
  | flush => exact InStep.always_bind (Alike.of_move Volume.flushAll_does).map
  | readAhead => exact InStep.always_bind (Alike.of_move Volume.serveReadAhead_does).map

theorem request_alike (hcareful : request.Careful total S handles) :
    Alike (fun n => (request.attempt (n := n)).run) w := by
  cases request with
  | call call => exact InStep.attempt_map (hS.call_alike hw hcareful.1)
  | look query => exact InStep.always_bind (InStep.map (hS.query_alike hw hcareful.1))
  | prefetch sector =>
    have hsector : ∀ s, Request.prefetch sector = .prefetch s → s.block < w.total := fun s hs =>
      Request.prefetch.inj hs ▸ hw.total ▸ hcareful
    obtain ⟨_, hdone⟩ := Request.idle_does (.prefetch sector) rfl hsector
    exact Alike.of_tries hdone

end Stands

end TieredVolume
