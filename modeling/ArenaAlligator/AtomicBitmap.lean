import ArenaAlligator.Usize
import Mathlib.Logic.Function.Basic

namespace ArenaAlligator

open Usize

def bitsPerWord : Nat := 64

def divCeil (n d : Nat) : Nat := (n + d - 1) / d

/-- The number of words behind a slot count, rounded to a power of two. At
most 2^58 words are ever needed, so the rounding cannot overflow. -/
def wordsFor (slotCount : Nat) : Nat := leastPowerOfTwo (max (divCeil slotCount bitsPerWord) 1)

/-- The bitmap allocator of bitmap.rs: one bit per slot, 1 when free. The
word array is padded to a power of two so that the scan can wrap with a mask.
The field asserts is the conjunction of the debug assertions met so far. -/
structure AtomicBitmap where
  words : List Word
  cursor : Word
  scanWords : Nat
  wordMask : Nat
  slotCount : Nat
  asserts : Bool
  length_words : words.length = scanWords
  scanWords_eq : scanWords = wordsFor slotCount
  wordMask_eq : wordMask = scanWords - 1
deriving DecidableEq

namespace AtomicBitmap

def initialWord (slotCount : Nat) (initiallyFree : Bool) (w : Nat) : Word :=
  let startBit := w * bitsPerWord
  if startBit ≥ slotCount then 0#64
  else
    let validBits := min (slotCount - startBit) bitsPerWord
    let freeMask := if validBits = bitsPerWord then BitVec.allOnes 64 else 1#64 <<< validBits - 1#64
    if initiallyFree then freeMask else 0#64

def withAllocationState (slotCount : Nat) (initiallyFree : Bool) : AtomicBitmap where
  words := (List.range (wordsFor slotCount)).map (initialWord slotCount initiallyFree)
  cursor := 0#64
  scanWords := wordsFor slotCount
  wordMask := wordsFor slotCount - 1
  slotCount := slotCount
  asserts := true
  length_words := by simp
  scanWords_eq := rfl
  wordMask_eq := rfl

def new (slotCount : Nat) : AtomicBitmap := withAllocationState slotCount true

def newEmpty (slotCount : Nat) : AtomicBitmap := withAllocationState slotCount false

def load (b : AtomicBitmap) (wordIdx : Nat) : Word := b.words.getD wordIdx 0#64

def store (b : AtomicBitmap) (wordIdx : Nat) (x : Word) : AtomicBitmap :=
  { b with words := b.words.set wordIdx x, length_words := by simp [b.length_words] }

def fetchOr (b : AtomicBitmap) (wordIdx : Nat) (mask : Word) : Word × AtomicBitmap :=
  (b.load wordIdx, b.store wordIdx (b.load wordIdx ||| mask))

def fetchAnd (b : AtomicBitmap) (wordIdx : Nat) (mask : Word) : Word × AtomicBitmap :=
  (b.load wordIdx, b.store wordIdx (b.load wordIdx &&& mask))

def fetchAddCursor (b : AtomicBitmap) : Word × AtomicBitmap :=
  (b.cursor, { b with cursor := b.cursor + 1#64 })

def debugAssert (b : AtomicBitmap) (c : Bool) : AtomicBitmap := { b with asserts := b.asserts && c }

def slotMask (slot : Nat) : Word := 1#64 <<< (slot % bitsPerWord)

def actualWords (b : AtomicBitmap) : Nat := divCeil b.slotCount bitsPerWord

/-- One attempt of try_claim_word to clear a bit that it saw set. -/
def claimBit (b : AtomicBitmap) (wordIdx bit : Nat) : Option Nat × AtomicBitmap :=
  let mask := 1#64 <<< bit
  let r := b.fetchAnd wordIdx (~~~mask)
  (if r.1 &&& mask ≠ 0#64 then some (wordIdx * bitsPerWord + bit) else none, r.2)

/-- The claim loop on one word. The comment in the source bounds it by the
number of bits, which is the fuel it is run with. -/
def tryClaimWord : Nat → AtomicBitmap → Nat → Nat → Option Nat × AtomicBitmap
  | 0, b, _, _ => (none, b)
  | fuel + 1, b, wordIdx, base =>
      let bits := b.load wordIdx
      if bits = 0#64 then (none, b)
      else
        let bit := bits.ctz.toNat
        let mask := 1#64 <<< bit
        let r := b.fetchAnd wordIdx (~~~mask)
        if r.1 &&& mask ≠ 0#64 then (some (base + bit), r.2)
        else tryClaimWord fuel r.2 wordIdx base

def scan (start : Nat) : Nat → Nat → AtomicBitmap → Option Nat × AtomicBitmap
  | 0, _, b => (none, b)
  | n + 1, i, b =>
      let wordIdx := (start + i) &&& b.wordMask
      let r := tryClaimWord bitsPerWord b wordIdx (wordIdx * bitsPerWord)
      match r.1 with
      | some slot => (some slot, r.2)
      | none => scan start n (i + 1) r.2

def tryAlloc (b : AtomicBitmap) : Option Nat × AtomicBitmap :=
  if b.slotCount = 0 then (none, b)
  else
    let r := b.fetchAddCursor
    scan (r.1.toNat &&& b.wordMask) b.scanWords 0 r.2

def free (b : AtomicBitmap) (slot : Nat) : AtomicBitmap :=
  let r := (b.debugAssert (slot < b.slotCount)).fetchOr (slot / bitsPerWord) (slotMask slot)
  r.2.debugAssert (r.1 &&& slotMask slot = 0#64)

def tryClaimExact (b : AtomicBitmap) (slot : Nat) : Bool × AtomicBitmap :=
  let r := (b.debugAssert (slot < b.slotCount)).fetchAnd (slot / bitsPerWord) (~~~slotMask slot)
  (r.1 &&& slotMask slot ≠ 0#64, r.2)

def anyFree (b : AtomicBitmap) : Bool :=
  (List.range b.actualWords).any fun wordIdx => b.load wordIdx ≠ 0#64

def isFree (b : AtomicBitmap) (slot : Nat) : Bool :=
  b.load (slot / bitsPerWord) &&& slotMask slot ≠ 0#64

def freeCount (b : AtomicBitmap) : Nat :=
  ((List.range b.actualWords).map fun wordIdx => (b.load wordIdx).cpop.toNat).sum

def lowMask (endBit : Nat) : Word :=
  if endBit ≥ bitsPerWord then BitVec.allOnes 64 else 1#64 <<< endBit - 1#64

def rangeMask (startBit endBit : Nat) : Word := lowMask endBit &&& ~~~(1#64 <<< startBit - 1#64)

def allSetInRange (b : AtomicBitmap) (start fin : Nat) : Bool :=
  if start = fin then true
  else
    let firstWord := start / bitsPerWord
    let lastWord := (fin - 1) / bitsPerWord
    if firstWord = lastWord then
      let mask := rangeMask (start % bitsPerWord) (fin - firstWord * bitsPerWord)
      b.load firstWord &&& mask = mask
    else
      let firstMask := ~~~(1#64 <<< (start % bitsPerWord) - 1#64)
      let lastMask := lowMask (fin - lastWord * bitsPerWord)
      decide (b.load firstWord &&& firstMask = firstMask) &&
        (List.range' (firstWord + 1) (lastWord - (firstWord + 1))).all
          (fun w => b.load w = BitVec.allOnes 64) &&
        decide (b.load lastWord &&& lastMask = lastMask)

def setRange (b : AtomicBitmap) (start fin : Nat) : AtomicBitmap :=
  if start = fin then b
  else
    let firstWord := start / bitsPerWord
    let lastWord := (fin - 1) / bitsPerWord
    if firstWord = lastWord then
      (b.fetchOr firstWord (rangeMask (start % bitsPerWord) (fin - firstWord * bitsPerWord))).2
    else
      let b := (b.fetchOr firstWord (~~~(1#64 <<< (start % bitsPerWord) - 1#64))).2
      let b := (List.range' (firstWord + 1) (lastWord - (firstWord + 1))).foldl
        (fun b w => (b.fetchOr w (BitVec.allOnes 64)).2) b
      (b.fetchOr lastWord (lowMask (fin - lastWord * bitsPerWord))).2

end AtomicBitmap

end ArenaAlligator
