import Speculos.Lib.Octets

/-!
# Hierarchical derivation

What the standards say of extended private keys, over any keyed hash and any
point multiplication. `Ckd` is the derivation of a child in BIP32 and SLIP-10
over a group of order `n`: a hash that gives no key is followed by another one,
so that the derivation is a relation. `Ed25519.ckd` is the one of BIP32-Ed25519,
where every hash gives a key.
-/

namespace Speculos.Bip32.Standard

open Lib

def ser32 (i : UInt32) : Bytes := toBE 4 i.toNat

def ser256 (k : Nat) : Bytes := toBE 32 k

@[simp] theorem length_ser32 (i : UInt32) : (ser32 i).length = 4 := length_toBE 4 _

@[simp] theorem length_ser256 (k : Nat) : (ser256 k).length = 32 := length_toBE 32 k

/-- The compressed form of a point, given by its coordinates. -/
def serP (p : Nat × Nat) : Bytes := (if p.2 % 2 = 0 then 0x02 else 0x03) :: ser256 p.1

def Hardened (i : UInt32) : Prop := 2 ^ 31 ≤ i.toNat

instance (i : UInt32) : Decidable (Hardened i) := inferInstanceAs (Decidable (_ ≤ _))

/-- An extended private key: the key and the chain code. -/
structure Node where
  k : Nat
  c : Bytes
  deriving DecidableEq, Repr

def Node.InRange (n : Nat) (node : Node) : Prop := 0 < node.k ∧ node.k < n

section
variable (hmac : Bytes → Bytes → Bytes) (n : Nat)

/-- The master node: a hash whose left half is no key is hashed again. -/
inductive Master (sk : Bytes) : Bytes → Node → Prop
  | valid (h : 0 < fromBE ((hmac sk seed).take 32) ∧ fromBE ((hmac sk seed).take 32) < n) :
    Master sk seed ⟨fromBE ((hmac sk seed).take 32), (hmac sk seed).drop 32⟩
  | retry (h : ¬ (0 < fromBE ((hmac sk seed).take 32) ∧ fromBE ((hmac sk seed).take 32) < n))
    (hnode : Master sk (hmac sk seed) node) : Master sk seed node

/-- The left half of the hash gives the key of a child. -/
def Valid (parent : Node) (data : Bytes) : Prop :=
  fromBE ((hmac parent.c data).take 32) < n ∧
    (fromBE ((hmac parent.c data).take 32) + parent.k) % n ≠ 0

/-- The child that the data of the hash gives, in the end. -/
inductive Child (parent : Node) (i : UInt32) : Bytes → Node → Prop
  | valid (h : Valid hmac n parent data) :
    Child parent i data ⟨(fromBE ((hmac parent.c data).take 32) + parent.k) % n,
      (hmac parent.c data).drop 32⟩
  | retry (h : ¬ Valid hmac n parent data)
    (hchild : Child parent i (0x01 :: (hmac parent.c data).drop 32 ++ ser32 i) child) :
    Child parent i data child

variable (point : Nat → Nat × Nat)

def childData (parent : Node) (i : UInt32) : Bytes :=
  (if Hardened i then 0x00 :: ser256 parent.k else serP (point parent.k)) ++ ser32 i

/-- `CKDpriv` -/
def Ckd (parent : Node) (i : UInt32) (child : Node) : Prop :=
  Child hmac n parent i (childData point parent i) child

/-- `CKDpriv` folded over a path. -/
inductive Derives : Node → List UInt32 → Node → Prop
  | nil : Derives node [] node
  | cons (hchild : Ckd hmac n point parent i child) (hnode : Derives child path node) :
    Derives parent (i :: path) node

end

section
variable {hmac : Bytes → Bytes → Bytes} {n : Nat} {point : Nat → Nat × Nat}

theorem Master.inRange (h : Master hmac n sk seed node) : node.InRange n := by
  induction h with
  | valid h => exact h
  | retry _ _ ih => exact ih

theorem Child.inRange (hn : 0 < n) (h : Child hmac n parent i data child) : child.InRange n := by
  induction h with
  | valid h => exact ⟨Nat.pos_of_ne_zero h.2, Nat.mod_lt _ hn⟩
  | retry _ _ ih => exact ih

theorem Derives.inRange (hn : 0 < n) (hparent : parent.InRange n)
    (h : Derives hmac n point parent path node) : node.InRange n := by
  induction h with
  | nil => exact hparent
  | cons hchild _ ih => exact ih (hchild.inRange hn)

end

-- ---------------------------------------------------------------------------
-- BIP32-Ed25519
-- ---------------------------------------------------------------------------

namespace Ed25519

/-- An extended private key: both halves of the key and the chain code. -/
structure Node where
  kL : Nat
  kR : Nat
  c : Bytes
  deriving DecidableEq, Repr

def Node.k (node : Node) : Bytes := toLE 32 node.kL ++ toLE 32 node.kR

def ser32 (i : UInt32) : Bytes := toLE 4 i.toNat

@[simp] theorem length_ser32 (i : UInt32) : (ser32 i).length = 4 := length_toLE 4 _

/-- The low bits of the left half are cleared, and its high bits set to `01`. -/
def clamp (kL : Nat) : Nat := 2 ^ 254 + kL % 2 ^ 254 / 8 * 8

section
variable (hmac hmac256 : Bytes → Bytes → Bytes)

/-- The key of the master node: a hash with bit 253 set is hashed again. -/
inductive Expands (sk : Bytes) : Bytes → Bytes → Prop
  | valid (h : fromLE ((hmac sk data).take 32) / 2 ^ 253 % 2 = 0) : Expands sk data (hmac sk data)
  | retry (h : fromLE ((hmac sk data).take 32) / 2 ^ 253 % 2 ≠ 0)
    (hexpands : Expands sk (hmac sk data) k) : Expands sk data k

def Master (sk seed : Bytes) (node : Node) : Prop :=
  ∃ k, Expands hmac sk seed k ∧
    node = ⟨clamp (fromLE (k.take 32)), fromLE (k.drop 32), hmac256 sk (0x01 :: seed)⟩

variable (point : Bytes → Bytes)

/-- The data of a hash: a tag and the key, or another tag and the public key. -/
def hashData (node : Node) (i : UInt32) (tagK tagA : UInt8) : Bytes :=
  (if Hardened i then tagK :: node.k else tagA :: point (toBE 32 node.kL)) ++ ser32 i

def ckd (node : Node) (i : UInt32) : Node :=
  let z := hmac node.c (hashData point node i 0x00 0x02)
  { kL := 8 * fromLE (z.take 28) + node.kL
    kR := (fromLE (z.drop 32) + node.kR) % 2 ^ 256
    c := (hmac node.c (hashData point node i 0x01 0x03)).drop 32 }

end

end Ed25519

end Speculos.Bip32.Standard
