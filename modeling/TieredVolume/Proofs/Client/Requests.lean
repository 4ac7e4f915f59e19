import TieredVolume.Proofs.Client.Runs

/-!
Requests of a client: its calls, what it looks up of the inodes that it holds, and the sectors that
are brought into the cache meanwhile. Looking up changes no inode, and neither does what goes on in
the cache, so that a volume stands with its handles after every request of a careful client.
-/
namespace TieredVolume

/-- What is looked up of an inode that is held. -/
inductive Query where
  | parent (handle : Handle)
  | sectorAt (handle : Handle) (offset : Nat)
  | node (handle : Handle)
  | isEmpty (dir : Handle)
  | lookup (dir : Handle) (name : String)

inductive Reading where
  | parent (dir : Sector)
  | sector (sector : Option Sector)
  /-- Who uses the inode, and whether it is removed. -/
  | node (node : Node)
  | isEmpty (empty : Bool)
  | entry (entry : Option (Entry × Nat))

namespace Query

variable {n : Nat}

def run : Query → VolumeM n Reading
  | parent handle => do return .parent (← Inode.parent handle.sector)
  | sectorAt handle offset => do return .sector (← Inode.sectorAt handle.sector offset)
  | node handle => do return .node (← Inode.node handle.sector)
  | isEmpty dir => do return .isEmpty (← Directory.isEmpty dir.sector)
  | lookup dir name => do return .entry (← Directory.lookup dir.sector name)

/-- The handle that is looked at. -/
def handle : Query → Handle
  | parent handle | sectorAt handle _ | node handle | isEmpty handle | lookup handle _ => handle

/-- Names are looked up in directories only. -/
def Suits : Query → Prop
  | isEmpty dir | lookup dir _ => dir.isDir = true
  | _ => True

/-- No offset lies behind the last byte that an index can reach. -/
def Fits : Query → Prop
  | sectorAt _ offset => offset < maxSectors * sectorSize
  | _ => True

end Query

inductive Request where
  | call (call : Call)
  | look (query : Query)
  /-- A sector is brought into the cache while nobody asks for it. -/
  | prefetch (sector : Sector)

inductive Reply where
  | answer (answer : Answer)
  | reading (reading : Reading)
  | done

namespace Request

open Attempt

variable {n : Nat}

def attempt : Request → Attempt n Reply
  | call c => do return .answer (← c.attempt)
  | look query => do return .reading (← always query.run)
  | prefetch sector => do
    let _ ← always (Volume.onCache (Cache.prefetch sector))
    return .done

/-- The handles that the client holds after the request. -/
def handles (held : List Handle) : Request → Except Refusal Reply → List Handle
  | call c, .ok (.answer answer) => c.handles held (.ok answer)
  | call c, .error why => c.handles held (.error why)
  | _, _ => held

/-- A request of a careful client of a volume of `total` sectors, which says which directories it
holds. -/
def Careful (total : Nat) (S : Shelf) (held : List Handle) : Request → Prop
  | call c => c.Careful S held
  | look query => query.handle ∈ held ∧ query.Suits
  | prefetch sector => sector.block < total

/-- What a request leaves. Only calls change anything. -/
def Effect (S : Shelf) : Request → (reply : Except Refusal Reply) → (S' : Shelf) → Prop
  | call c, .ok (.answer answer), S' => c.Effect S (.ok answer) S'
  | call c, .error why, S' => c.Effect S (.error why) S'
  | call _, .ok _, _ => False
  | _, _, S' => S' = S

/-- When a request surely does not end in a fault. -/
def Fits (S : Shelf) : Request → Prop
  | call c => c.Bounded ∧ c.Fits S
  | look query => query.Fits
  | prefetch _ => True

end Request

variable {total : Nat} {S : Shelf} {handles : List Handle} {query : Query} {request : Request}
  {w : View} {s : Sector} {faults : Fault → Prop} {n : Nat} {v : Volume n}

/-- Bringing a sector into the cache is not seen. -/
theorem Volume.prefetch_does (hs : s.block < w.total) :
    Does Shows faults (onCache (n := n) (Cache.prefetch s)) w fun _ w' => w' = w := by
  refine quiet_does fun c hc => ?_
  obtain ⟨b, hb⟩ := hc.coherent.exists_current (s := s) (hc.blockCount.symm ▸ hs)
  refine (Cache.prefetch_yields hc.coherent hc.ready (by simp) hb).mono ?_
  rintro - c' ⟨hc', hf, -⟩
  exact ⟨hc.of_changes hc' hf.changes_current,
    fun t ht => hf.current t (hc.blockCount.symm ▸ ht), hf.dirty⟩

namespace Stands

variable (hS : Stands S handles)

include hS

/-- Looking up changes no inode. -/
theorem query_does (hheld : query.handle ∈ handles) :
    Does (Stores total) (fun _ => ¬ query.Fits) (query.run (n := n)) S fun _ S' => S' = S := by
  obtain ⟨nd, hn⟩ := hS.exists_node hheld
  have hs := hS.live hheld
  cases query with
  | parent handle =>
    exact Does.andThen (Inode.parent_does hs hn) fun _ S' hpost => Does.pure hpost.2
  | sectorAt handle offset =>
    have hend : offset / sectorSize < maxSectors ∨ ¬ (Query.sectorAt handle offset).Fits := by
      refine (Nat.lt_or_ge _ _).imp_right fun hge hlt => ?_
      change offset < maxSectors * sectorSize at hlt
      simp only [sectorSize, maxSectors] at hlt hge
      omega
    exact Does.andThen (Inode.sectorAt_does hs hn hend) fun _ S' hpost => Does.pure hpost
  | node handle =>
    exact Does.andThen (Inode.node_stores hn) fun _ S' hpost => Does.pure hpost.2.2
  | isEmpty dir =>
    exact Does.andThen (Directory.isEmpty_does hs hn) fun _ S' hpost => Does.pure hpost.2
  | lookup dir name =>
    exact Does.andThen (Directory.lookup_does hs hn) fun _ S' hpost => Does.pure hpost.1

/-- A request of a careful client is answered, unless it does not fit, and leaves the volume with
handles that stand on it. -/
theorem request_yields (hv : Stores total v S) (hcareful : request.Careful total S handles) :
    Yields (fun _ => ¬ request.Fits S) request.attempt.run v fun reply v' =>
      ∃ S', request.Effect S reply S' ∧ Stands S' (request.handles handles reply) ∧
        S'.Like v'.shelf ∧ Stores total v' v'.shelf := by
  -- a request that changes neither the shelf nor the handles
  have hquiet : (∀ reply S', S' = S → request.Effect S reply S') →
      (∀ reply, request.handles handles reply = handles) →
      Tries (Stores total) (fun _ => ¬ request.Fits S) request.attempt S (fun _ S' => S' = S)
        (fun _ _ => False) →
      Yields (fun _ => ¬ request.Fits S) request.attempt.run v fun reply v' => ∃ S',
        request.Effect S reply S' ∧ Stands S' (request.handles handles reply) ∧
          S'.Like v'.shelf ∧ Stores total v' v'.shelf := fun heffect hheld hx => by
    refine (hx v hv).mono ?_
    rintro (why | reply) v' ⟨S', hv', hpost⟩
    · exact hpost.elim
    · obtain rfl : S' = S := hpost
      have hl := hv'.like_shelf hS.toSettled
      exact ⟨S', heffect _ _ rfl, by rwa [hheld], hl, hv'.like hl⟩
  cases request with
  | call c =>
    refine Yields.andThen (hS.careful_yields hv hcareful) ?_
    rintro (why | answer) v' hpost
    · exact Yields.pure hpost
    · exact Yields.pure hpost
  | look query =>
    exact hquiet (fun _ _ => id) (fun _ => rfl) (Tries.bind (Tries.always
      ((hS.query_does hcareful.1).mono fun _ _ hpost => Tries.pure hpost)))
  | prefetch sector =>
    have hsector : Does (Stores total) (fun _ => ¬ (Request.prefetch sector).Fits S)
        (Volume.onCache (n := n) (Cache.prefetch sector)) S fun _ S' => S' = S :=
      quiet_stores fun w hw => Volume.prefetch_does (hw ▸ hcareful)
    exact hquiet (fun _ _ => id) (fun _ => rfl) (Tries.bind (Tries.always
      (hsector.mono fun _ _ hpost => Tries.pure hpost)))

end Stands

/-- After a request of a careful client the volume has its shelf, and the handles stand on it. -/
theorem Volume.stands_request {v' : Volume n} {reply : Except Refusal Reply}
    (hv : Stores v.map.total v v.shelf) (hS : Stands v.shelf handles)
    (hcareful : request.Careful v.map.total v.shelf handles)
    (hrun : request.attempt.run v = .ok reply v') :
    v'.map.total = v.map.total ∧ Stores v'.map.total v' v'.shelf ∧
      Stands v'.shelf (request.handles handles reply) := by
  obtain ⟨S', -, hS', hl, hv'⟩ := (hS.request_yields hv hcareful).of_ok hrun
  have htotal := hv'.total_eq
  exact ⟨htotal, htotal.symm ▸ hv', hS'.like hl⟩

/-- A call that is requested is answered as it is alone. -/
theorem Request.run_call {call : Call} {answer : Except Refusal Answer} {v' : Volume n}
    (hrun : call.attempt.run v = .ok answer v') :
    (Request.call call).attempt.run v = .ok (answer.map Reply.answer) v' := by
  simp only [Request.attempt, bind, EStateM.bind, hrun]
  cases answer <;> rfl

namespace Client

/-- The clients that come of another one by requests of some kind, as long as none ends in a
fault. -/
inductive Runs (kind : Nat → Shelf → List Handle → Request → Prop) (first : Client) :
    Client → Prop where
  | first : Runs kind first first
  | request {c : Client} {request : Request} {reply : Except Refusal Reply}
    {volume : Volume cacheCapacity} :
    Runs kind first c → kind c.volume.map.total c.shelf c.handles request →
    request.attempt.run c.volume = .ok reply volume →
    Runs kind first { volume, handles := request.handles c.handles reply }

variable {first c : Client} {kind kind' : Nat → Shelf → List Handle → Request → Prop}
  {device : Device} {options : MountOptions} {volume : Volume cacheCapacity}

theorem Runs.mono (h : Runs kind first c)
    (hkind : ∀ total S held request, kind total S held request → kind' total S held request) :
    Runs kind' first c := by
  induction h with
  | first => exact .first
  | request _ hreq hrun ih => exact ih.request (hkind _ _ _ _ hreq) hrun

/-- A call is a request. -/
theorem Runs.call {call : Call} {answer : Except Refusal Answer} (h : Runs kind first c)
    (hkind : kind c.volume.map.total c.shelf c.handles (.call call))
    (hrun : call.attempt.run c.volume = .ok answer volume) :
    Runs kind first { volume, handles := call.handles c.handles answer } := by
  have hrequest := Request.run_call hrun
  have hheld : (Request.call call).handles c.handles (answer.map Reply.answer) =
      call.handles c.handles answer := by
    cases answer <;> rfl
  exact hheld ▸ h.request hkind hrequest

/-- The clients that come of fresh volumes by calls come of them by requests. -/
theorem Comes.runs {calls : Shelf → List Handle → Call → Prop} (h : Comes calls c)
    (hkind : ∀ {c : Client} {call : Call}, Comes calls c → calls c.shelf c.handles call →
      kind c.volume.map.total c.shelf c.handles (.call call)) :
    ∃ (device : Device) (options : MountOptions) (volume : Volume cacheCapacity), device.Sound ∧
      device.blockCount < sectorLimit ∧ options.format = true ∧
      Volume.mount device options = .ok (.ok volume) ∧ Runs kind { volume } c := by
  induction h with
  | mount hd hlimit hformat hrun => exact ⟨_, _, _, hd, hlimit, hformat, hrun, .first⟩
  | call hcomes hcall hrun ih =>
    obtain ⟨device, options, volume, hd, hlimit, hformat, hmount, hruns⟩ := ih
    exact ⟨device, options, volume, hd, hlimit, hformat, hmount,
      hruns.call (hkind hcomes hcall) hrun⟩

/-- Between two requests the volume has its shelf, and the handles stand on it. -/
theorem Runs.stands (hd : device.Sound) (hlimit : device.blockCount < sectorLimit)
    (hformat : options.format = true) (hmount : Volume.mount device options = .ok (.ok volume))
    (h : Runs Request.Careful { volume } c) :
    Stores c.volume.map.total c.volume c.shelf ∧ Stands c.shelf c.handles := by
  induction h with
  | first => exact (Comes.mount hd hlimit hformat hmount).stands
  | request _ hcareful hrun ih => exact (Volume.stands_request ih.1 ih.2 hcareful hrun).2

end Client
end TieredVolume
