import MisFITS.CopyStages

/-! Flushing, after `File::flush` and `Table::flush`. It is the current header-data unit of
the file whose rows are counted anew, whichever table is asked. -/
namespace MisFITS
open Program HDU

inductive FlushMode where
  | file | buffer
  deriving DecidableEq, Repr

structure FlushCalls where
  flushFile : Edit
  flushBuffer : Int → Edit

/-- What a flush leaves of a header-data unit: one of the file has its rows counted. -/
def FlushMode.flushed : FlushMode → HduData → HduData
  | .file, h => { h with naxis2 := h.nrows }
  | .buffer, h => h

structure FlushCalls.Documented (calls : FlushCalls) : Prop where
  flush_file : ∀ {h h'}, calls.flushFile h = .ok () h' → h' = FlushMode.file.flushed h
  flush_buffer : ∀ {h h'}, calls.flushBuffer 0 h = .ok () h' → h' = FlushMode.buffer.flushed h

variable (calls : FlushCalls)

def File.flush (mode : FlushMode) (f : Nat) : M Unit :=
  match mode with
  | .file => editChdu f calls.flushFile
  | .buffer => editChdu f (calls.flushBuffer 0)

def Table.flush (mode : FlushMode) (t : Nat) : M Unit := onFile (.table t) (File.flush calls mode)

variable {calls} {mode : FlushMode} {t : Nat} {w w' : World} {u : Unit}

end MisFITS
