import PulseImaging.ConfText
import PulseImaging.PartTables
import PulseImaging.RestoreImage
import PulseImaging.SectorViews

/-! A whole backup and a whole restore: what the calls of `save` leave in the directory of the image,
and what the actions of `restoreimage` make of that directory on the disks. -/

namespace PulseImaging

variable {δ : Type*}

/-- The files by their paths. -/
abbrev ImageDir := List Byte → Option (List Byte)

/-- What a backup meets besides the machine: the sectors behind its devices, the encoder, the `options`
file, and what the image tools find in a volume. -/
structure Site (δ : Type*) where
  views : List Byte → SectorView δ
  codec : Codec
  options : Option (List Byte)
  params : Imager → Volume → PARAMS
  info : Imager → Volume → List Byte

/-- `%s/%sTABS` -/
def tabsPath (revosave : List Byte) (dnum : Int) : List Byte :=
  revosave ++ ascii "/" ++ (dnum2pre dnum ++ ascii "TABS")

/-- What an image tool writes for a volume. -/
def Site.image (site : Site δ) (source : Store δ) (t : Imager) (v : Volume) : Image :=
  compressVolume allFull site.options (site.info t v) (site.params t v)
    (openDevice ((site.views (devPath v.part.device)).read source))

/-- The files of an image, numbered from `i` on. -/
def writeFiles (name : List Byte) : Nat → List (List Byte) → ImageDir → ImageDir
  | _, [], dir => dir
  | i, file :: files, dir => writeFiles name (i + 1) files (Function.update dir (imageName name i) (some file))

/-- What one call of a backup leaves in the directory; `save_raw` appends. -/
def Site.saveEvent (site : Site δ) (source : Store δ) (revosave : List Byte) (dir : ImageDir) :
    SaveEvent → Option ImageDir
  | .saveRaw start stop fmajor dnum =>
    let path := tabsPath revosave dnum
    (saveRaw ((site.views fmajor).read source) start stop ((dir path).getD [])).map fun file =>
      Function.update dir path (some file)
  | .image t v => some (writeFiles (destfile revosave v) 0 (imageFiles site.codec (site.image source t v)) dir)
  | _ => some dir

/-- A backup into a directory without files. -/
def Site.backup (site : Site δ) (source : Store δ) (revosave : List Byte) (trace : List SaveEvent) :
    Option ImageDir :=
  trace.foldlM (site.saveEvent source revosave) fun _ => none

/-- What a restore meets: the table of `makehdmap`, and the buffers as they are at each action. -/
structure RestoreSite where
  hdmap : List (List Byte)
  mem : RestoreAction → Memory
  junk : RestoreAction → List Byte

/-- `restore` onto a device. -/
def Site.restoreFiles (site : Site δ) (r : RestoreSite) (revosave : List Byte) (dir : ImageDir) (fuel : Nat)
    (a : RestoreAction) (device : List Byte) (sect : Nat) (fname : List Byte) (disks : Store δ) :
    Option (Store δ) :=
  let view := site.views device
  (restore site.codec.inflater allFull fuel (fun n _ => dir (imageName (revosave ++ ascii "/" ++ fname) n)) sect
    (r.mem a) (openDevice (view.read disks))).map fun st => view.write st.cp.dev.content disks

/-- An action of the restore. There is no result for a disk that is not in the table, nor when a loop has not
ended. -/
def Site.restoreAction (site : Site δ) (r : RestoreSite) (revosave : List Byte) (dir : ImageDir) (fuel : Nat)
    (disks : Store δ) (a : RestoreAction) : Option (Store δ) :=
  match a with
  | .restoreRaw d1 fname =>
    (r.hdmap[d1]?).bind fun device =>
      let view := site.views device
      let input := (dir (revosave ++ ascii "/" ++ fname)).elim missingFile fileInput
      (restoreRaw input (r.junk a) fuel).map fun ws => view.write (replayWrites ws (view.read disks)) disks
  | .restore d1 sect fname =>
    (r.hdmap[d1]?).bind fun device => site.restoreFiles r revosave dir fuel a device sect fname disks
  | .restoreLvm device sect fname => site.restoreFiles r revosave dir fuel a device sect fname disks
  | _ => some disks

/-- `restoreimage` without the repair of NT boot loaders. -/
def Site.restoreAll (site : Site δ) (r : RestoreSite) (revosave junk : List Byte) (dir : ImageDir)
    (conf : List Byte) (fuel : Nat) (disks : Store δ) : Option (Store δ) :=
  (restoreimage false junk conf).foldlM (site.restoreAction r revosave dir fuel) disks

end PulseImaging
