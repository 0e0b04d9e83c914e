import Mathlib.Data.List.AList
import Yaldabaoth.Lib.Machine
import Yaldabaoth.Model.Document

/-!
# `Yaldabaoth.Model.FileSync`: the buffers and the files on disk

`file_sync.rs`, with the pool of buffers it works on. Files are read when
a buffer is opened and by the pump that runs behind the file watcher;
they are written by autosaves, by the user's saves, and by others.

The hash of a text is a parameter. A hash map and a set of paths are the
functions that look things up in them.
-/

set_option autoImplicit false

namespace Yaldabaoth

/-- The buffers by their path, with what is known of the files. `disk` is
the file system: what there is to read of a path. `reads` is the batch
that the pump has read and not yet applied. -/
structure FileSync where
  disk : String → Option (List Char)
  pool : AList fun _ : String => Document Char
  tracked : List String
  diskHash : String → Option UInt64
  conflicts : List String
  reads : List (String × Option (List Char))

namespace FileSync

/-- No buffer is open. -/
def started (disk : String → Option (List Char)) : FileSync where
  disk
  pool := ∅
  tracked := []
  diskHash := fun _ => none
  conflicts := []
  reads := []

variable (contentHash : List Char → UInt64)

/-- `note_disk_content`. -/
def noteDiskContent (s : FileSync) (path : String) (text : List Char) : FileSync :=
  { s with diskHash := Function.update s.diskHash path (some (contentHash text)) }

/-- What `reconcile` takes the hash of a file to be that was not watched
before. -/
def seedHash (s : FileSync) (path : String) : Option UInt64 :=
  match s.pool.lookup path with
  | none => none
  | some d =>
      if !d.modified then some (contentHash d.rope) else (s.disk path).map contentHash

/-- Watch the files of the pool, and no others. -/
def reconcile (s : FileSync) : FileSync :=
  let want := s.pool.keys
  if s.tracked ⊆ want ∧ want ⊆ s.tracked then s
  else
    { s with
        tracked := want
        diskHash := fun path =>
          if path ∉ want then none
          else if path ∈ s.tracked then s.diskHash path
          else (s.diskHash path).or (s.seedHash contentHash path)
        conflicts := s.conflicts.filter fun path => path ∈ want }

/-! ### Opening and closing -/

/-- `open_buffer`, and the observer that runs after it. -/
def openBuffer (s : FileSync) (path : String) : FileSync :=
  match s.pool.lookup path with
  | some _ => s
  | none =>
      { s with pool := s.pool.insert path (.fromText ((s.disk path).getD []) path) }.reconcile
        contentHash

/-- `gc_buffers`, for a buffer that no tile shows any more. -/
def closeBuffer (s : FileSync) (path : String) : FileSync :=
  match s.pool.lookup path with
  | none => s
  | some d => if d.modified then s else { s with pool := s.pool.erase path }.reconcile contentHash

def editBuffer (s : FileSync) (path : String) (edit : Document.Edit Char) : FileSync :=
  match s.pool.lookup path with
  | none => s
  | some d => { s with pool := s.pool.insert path (d.apply edit) }

/-! ### Writing -/

/-- `write_core_to_disk` of the buffer `d` that is pooled under `path`.
The write may fail, which leaves everything as it is. -/
def writeCoreToDisk (s : FileSync) (path : String) (d : Document Char) (written : Bool) :
    FileSync :=
  if written then
    let s := { s with
      disk := Function.update s.disk d.filePath (some d.savedText)
      pool := s.pool.insert path (d.savedTo d.filePath) }
    s.noteDiskContent contentHash d.filePath d.rope
  else s

def autosavePath (s : FileSync) (path : String) (written : Bool) : FileSync :=
  if path ∈ s.conflicts then s
  else
    match s.pool.lookup path with
    | none => s
    | some d => if d.modified then s.writeCoreToDisk contentHash path d written else s

/-- `save_buffer` of a tile that shows the buffer. -/
def saveBuffer (s : FileSync) (path : String) (written : Bool) : FileSync :=
  match s.pool.lookup path with
  | none => s
  | some d =>
      if d.filePath ∈ s.conflicts then s else s.writeCoreToDisk contentHash path d written

/-! ### Reading -/

/-- `reload_core_preserving_carets`. -/
def reloadCore (s : FileSync) (path : String) (d : Document Char) (text : List Char) : FileSync :=
  let s := s.noteDiskContent contentHash d.filePath text
  { s with
      conflicts := s.conflicts.filter fun other => other ≠ d.filePath
      pool := s.pool.insert path (d.replaceText text d.filePath) }

/-- `apply_disk_changes` of one read. -/
def applyDiskChange (s : FileSync) (read : String × Option (List Char)) : FileSync :=
  match read with
  | (_, none) => s
  | (path, some disk) =>
      let h := contentHash disk
      if s.diskHash path = some h then s
      else
        match s.pool.lookup path with
        | none => s
        | some d =>
            let s := { s with diskHash := Function.update s.diskHash path (some h) }
            if d.rope = disk then
              { s with conflicts := s.conflicts.filter fun other => other ≠ path }
            else if d.modified then
              if path ∈ s.conflicts then s else { s with conflicts := s.conflicts ++ [path] }
            else s.reloadCore contentHash path d disk

def applyDiskChanges (s : FileSync) : FileSync :=
  { s.reads.foldl (applyDiskChange contentHash) s with reads := [] }

/-- The pump reads a file that the watcher told of. -/
def readFile (s : FileSync) (path : String) (readable : Bool) : FileSync :=
  if path ∈ s.tracked then
    { s with reads := s.reads ++ [(path, if readable then s.disk path else none)] }
  else s

/-! ### Conflicts -/

def keepMine (s : FileSync) (path : String) : FileSync :=
  { s with conflicts := s.conflicts.filter fun other => other ≠ path }

def reloadTheirs (s : FileSync) (path : String) : FileSync :=
  match s.pool.lookup path, s.disk path with
  | some d, some text => s.reloadCore contentHash path d text
  | _, _ => s

/-! ### Runs -/

inductive Action where
  | openBuffer (path : String)
  | closeBuffer (path : String)
  | editBuffer (path : String) (edit : Document.Edit Char)
  | autosavePath (path : String) (written : Bool)
  | saveBuffer (path : String) (written : Bool)
  | readFile (path : String) (readable : Bool)
  | applyDiskChanges
  | keepMine (path : String)
  | reloadTheirs (path : String)
  | externalWrite (path : String) (content : Option (List Char))
deriving Repr, DecidableEq

def perform (s : FileSync) : Action → FileSync
  | .openBuffer path => s.openBuffer contentHash path
  | .closeBuffer path => s.closeBuffer contentHash path
  | .editBuffer path edit => s.editBuffer path edit
  | .autosavePath path written => s.autosavePath contentHash path written
  | .saveBuffer path written => s.saveBuffer contentHash path written
  | .readFile path readable => s.readFile path readable
  | .applyDiskChanges => s.applyDiskChanges contentHash
  | .keepMine path => s.keepMine path
  | .reloadTheirs path => s.reloadTheirs contentHash path
  | .externalWrite path content => { s with disk := Function.update s.disk path content }

def machine : Machine FileSync Action where
  start s := ∃ disk, s = started disk
  step s a := some (s.perform contentHash a)

end FileSync

end Yaldabaoth
