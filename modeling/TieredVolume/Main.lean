import TieredVolume.Packer.Image

/-!
The packer as a program. It looks at the host, lets the library do the packing, and writes the image.
-/
namespace TieredVolume
namespace Packer

/-- The text for a call for help. -/
def helpText : String :=
  "Copies the plain files of a directory into the volume image fs.img\n\n" ++
  "  -s, --source DIR   directory whose files are copied into /bin\n" ++
  "  -O, --out-dir DIR  directory of the image\n" ++
  "      --size MIB     size of the image [default: 16]\n"

/-- Where the image goes. -/
def imagePath (options : Options) : String := options.outDir ++ "/fs.img"

/-- Makes the blank image, if the host takes it. -/
def makeImage (options : Options) : IO Bool := do
  match options.blocks { takesImage := true, source? := none } with
  | .error _ => return false
  | .ok blocks =>
    try
      IO.FS.writeBinFile (imagePath options) ⟨(ImageFile.ofBlocks blocks).bytes⟩
      return true
    catch _ => return false

/-- The plain files of a directory. -/
def plainFiles (dir : String) : IO (Option (List (String × Bytes))) := do
  try
    let mut files := []
    for entry in ← (← IO.FS.realPath dir).readDir do
      match (← entry.path.symlinkMetadata).type with
      | .file => files := (entry.fileName, (← IO.FS.readBinFile entry.path).data.toList) :: files
      | _ => pure ()
    return some files.reverse
  catch _ => return none

/-- Packs as the options say. -/
def runOnHost (options : Options) : IO UInt32 := do
  IO.print options.report
  let takesImage ← makeImage options
  let source? ← plainFiles options.source
  match run options { takesImage, source? } with
  | .ok device =>
    IO.FS.writeBinFile (imagePath options) ⟨device.bytes⟩
    return 0
  | .error why =>
    IO.eprintln why.message
    return why.code

end Packer
end TieredVolume

open TieredVolume.Packer in
/-- Reads the command line and packs. -/
def main (words : List String) : IO UInt32 := do
  match Request.ofWords words with
  | .ok .help =>
    IO.print helpText
    return 0
  | .ok (.pack options) => runOnHost options
  | .error why =>
    IO.eprintln why.message
    return usageCode
