import TieredVolume.Mount
import TieredVolume.Packer.Options
import TieredVolume.Text.Quoted

/-!
Packing: a fresh volume is made on a blank image and the plain files of a directory are copied into
its directory `/bin`. What the host has to offer is looked up before; a run is then a function of
that and of the options.
-/
namespace TieredVolume
namespace Packer

open Volume Attempt

variable {n : Nat}

/-- The directory that takes the files. -/
def targetDir : String := "/bin"

/-- The path of a file in it. -/
def targetPath (name : String) : String := targetDir ++ "/" ++ name

/-- Copies a file into the volume. -/
def addFile (name : String) (contents : Bytes) : Attempt n Unit := do
  Namespace.create (targetPath name) 0 rootSector
  let s ← Namespace.openFile (targetPath name) rootSector
  let _ ← thenAlways (Inode.writeAt s 0 contents) (Inode.close s)

/-- Copies files into the volume, one after the other. -/
def addFiles : List (String × Bytes) → Attempt n Unit
  | [] => pure ()
  | (name, contents) :: rest => do
    addFile name contents
    addFiles rest

/-- Why a run fails. -/
inductive Failure where
  /-- The image cannot be made on the host. -/
  | noImage
  /-- The source directory cannot be listed. -/
  | noSource
  | refused (why : Refusal)
  | fault (why : Fault)
  deriving DecidableEq, Repr

def Failure.message : Failure → String
  | .noImage => "the image cannot be made"
  | .noSource => "the source directory cannot be listed"
  | .refused why => why.message
  | .fault why => why.message

/-- The exit code of a run that fails. -/
def Failure.code : Failure → UInt32
  | .fault _ => 101
  | _ => 1

/-- The exit code after a command line that makes no sense. -/
def usageCode : UInt32 := 2

/-- What the host has to offer. -/
structure Host where
  /-- Whether a file can be made in the directory for the image. -/
  takesImage : Bool
  /-- The plain files of the source directory, if it can be listed. -/
  source? : Option (List (String × Bytes))

/-- The answer to an operation on a volume that may go wrong in either way. -/
def settle {α : Type} : Except Fault (Except Refusal α) → Except Failure α
  | .ok (.ok a) => .ok a
  | .ok (.error why) => .error (.refused why)
  | .error why => .error (.fault why)

/-- An attempt on a volume, with the volume that it leaves. -/
def onVolume (x : Attempt n Unit) (v : Volume n) : Except Failure (Volume n) :=
  match x.run v with
  | .ok (.ok ()) v => .ok v
  | .ok (.error why) _ => .error (.refused why)
  | .error why _ => .error (.fault why)

/-- Blocks in the unit of sizes, which is 2^20 bytes. -/
def unitBlocks : Nat := 2048

/-- The largest file of a host has a length that fits a signed word of 64 bits. -/
def maxImageBytes : Nat := 9223372036854775807

/-- Blocks of the image that the options ask for. -/
def Options.blocks (options : Options) (host : Host) : Except Failure Nat :=
  match checkOffset (options.size * unitBlocks * sectorSize) with
  | .error why => .error (.fault why)
  | .ok bytes =>
    if host.takesImage && bytes ≤ maxImageBytes then .ok (options.size * unitBlocks)
    else .error .noImage

/-- The root is closed, and the volume is shut down as it goes away. -/
def leave : VolumeM n Unit := do
  Inode.close rootSector
  shutdown

/-- An attempt while the root is open, be it refused or not. -/
def holdingRoot (x : Attempt n Unit) : Attempt n Unit := do
  always (Inode.open rootSector)
  thenAlways x leave

/-- The directory for the files is made. -/
def makeTarget : Attempt n Unit := Namespace.createDirectory targetDir rootSector

/-- It is made, the files are copied into it, and all is written to the device. -/
def fill (files : List (String × Bytes)) : Attempt n Unit := do
  makeTarget
  addFiles files
  always shutdown

/-- A fresh volume on a blank image. -/
def prepare (blocks : Nat) : Except Failure (Volume cacheCapacity) :=
  settle (Volume.mount (.image (ImageFile.ofBlocks blocks)) { format := true, background := false })

/-- A run of the packer, which ends with the device that it has filled. -/
def run (options : Options) (host : Host) : Except Failure Device := do
  let v ← prepare (← options.blocks host)
  match host.source? with
  | none =>
    let _ ← onVolume (holdingRoot makeTarget) v
    .error .noSource
  | some files =>
    let v ← onVolume (holdingRoot (fill files)) v
    return v.cache.device

/-- What a run says before it does anything. -/
def Options.report (options : Options) : String :=
  "source=" ++ Quoted.encode options.source ++ "\nout_dir=" ++ Quoted.encode options.outDir ++ "\n"

end Packer
end TieredVolume
