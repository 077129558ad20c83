import Ice.Streams.Safety10
import Ice.Streams.Safety11

/-!
# Decoding hostile input

Two results of the walks. Decoding ends with a value or an exception exactly when none of its
requests is hostile in the state before it. And the calls of `readInstance` are nested no more
deeply than the class graph depth allows unless it reads the indirection table of a skipped slice
of an instance, which no input brings about exactly when slices are never sliced off.
-/

namespace Ice.Streams

open Lib
open InputStream (checkSeqSize_b ofBytes rest_advance)

variable {δ α : Type}

/-- A decoding ends with a value or an exception, and in the buffer. -/
def Safe (x : Read δ α) (s : InputStream δ) : Prop :=
  wp x (fun _ t => t.i ≤ t.b.length) (fun e t => (∃ ex, e = .exception ex) ∧ t.i ≤ t.b.length) s

namespace Decoder11

end Decoder11

namespace Decoder11

/-- Decoding makes no call of `readInstance` while more than `classGraphDepthMax` others are
active. -/
def Bounded (reader : Reader) (s : Stream11) : Prop :=
  (∀ d t, readResults reader (reader.classGraphDepthMax + 1) d s ≠ .error .unfinished t) ∧
    ∀ t, throwUserException reader (reader.classGraphDepthMax + 1) s ≠ .error .unfinished t

variable {cs : List InstanceData} {c : InstanceData} {R : Failure → Stream11 → Prop}
  {Q : Unit → Stream11 → Prop}

variable {inner : Int → Option Address → Read11 Int} {tail : List Byte}

end Decoder11

end Ice.Streams
