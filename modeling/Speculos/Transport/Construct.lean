import Speculos.Lib.Effect
import Speculos.Lib.Octets

/-!
# Exceptions and binary structures of the Python side

The exceptions the transports raise, and the integer fields of the `construct`
package they build and parse their headers with: a value that does not fit its
field raises `FormatFieldError`, and a stream too short for the fields to be
read raises `StreamError`.
-/

namespace Speculos.Transport

open Lib

inductive PyError
  | valueError (message : String)
  | indexError
  | overflowError
  | streamError
  | formatFieldError
  deriving DecidableEq, Repr

/-- A method call on an object of type `σ`. -/
abbrev Py (σ α : Type) := EStateM PyError σ α

def int8ub (n : Nat) : Py σ Bytes :=
  if n < 256 then pure [UInt8.ofNat n] else throw .formatFieldError

def int16ub (n : Nat) : Py σ Bytes :=
  if n < 65536 then pure (be16 n) else throw .formatFieldError

def int16ul (n : Nat) : Py σ Bytes :=
  if n < 65536 then pure (be16 n).reverse else throw .formatFieldError

theorem int8ub_ok {n : Nat} (h : n < 256) (s : σ) : int8ub n s = .ok [UInt8.ofNat n] s := by
  rw [int8ub, if_pos h]
  rfl

theorem int16ub_ok {n : Nat} (h : n < 65536) (s : σ) : int16ub n s = .ok (be16 n) s := by
  rw [int16ub, if_pos h]
  rfl

end Speculos.Transport
