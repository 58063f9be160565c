import CpswDriver.Kernel
import Mathlib.Data.Finset.Image
import Mathlib.Data.Finset.Max
import Mathlib.Data.Fintype.Basic
import Mathlib.Tactic.Ring

/-!
The data of the CPDMA driver: descriptors, the descriptor pool, channels and
the controller, with the accessors that the driver's macros provide.
Descriptor pointers and bus addresses are natural numbers with 0 for NULL;
what a descriptor stores is 32 bits wide. The packet token is opaque to the
driver and stays a type variable.
-/

namespace CpswDriver.Cpdma

def cpdmaDescSop : U32 := 1#32 <<< 31
def cpdmaDescEop : U32 := 1#32 <<< 30
def cpdmaDescOwner : U32 := 1#32 <<< 29
def cpdmaDescEoq : U32 := 1#32 <<< 28
def cpdmaDescTdComplete : U32 := 1#32 <<< 27
def cpdmaDescPassCrc : U32 := 1#32 <<< 26
def cpdmaDescToPortEn : U32 := 1#32 <<< 20
def cpdmaToPortShift : ℕ := 16
def cpdmaDescPortMask : U32 := (1#32 <<< 18) ||| (1#32 <<< 17) ||| (1#32 <<< 16)
def cpdmaDescCrcLen : ℤ := 4
def cpdmaRxVlanEncap : U32 := 1#32 <<< 19
def cpdmaDmaExtMap : U32 := 1#32 <<< 16
def cpdmaTeardownValue : U32 := 0xfffffffc#32

def cpdmaTxcontrol : ℕ := 0x04
def cpdmaTxteardown : ℕ := 0x08
def cpdmaRxcontrol : ℕ := 0x14
def cpdmaRxteardown : ℕ := 0x18
def cpdmaDmacontrol : ℕ := 0x20
def cpdmaDmastatus : ℕ := 0x24
def cpdmaRxbuffofs : ℕ := 0x28
def cpdmaTxPri0Rate : ℕ := 0x30
def cpdmaTxintmaskset : ℕ := 0x88
def cpdmaTxintmaskclear : ℕ := 0x8c
def cpdmaRxintmaskset : ℕ := 0xa8
def cpdmaRxintmaskclear : ℕ := 0xac

/-- BITS_PER_LONG on the 32-bit machines the driver is built for. -/
def cpdmaMaxChannels : ℕ := 32

/-- An index of the controller's channel array: tx channels first, then rx. -/
abbrev ChanId := Fin 64

def isRxChan (ch : ChanId) : Bool := cpdmaMaxChannels ≤ ch.val
def isTxChan (ch : ChanId) : Bool := !isRxChan ch
def chanLinear (ch : ChanId) : ℕ := ch.val % cpdmaMaxChannels

inductive CpdmaState
  | idle
  | active
  | teardown
  deriving DecidableEq, Repr

structure CpdmaDesc (τ : Type*) where
  hwNext : U32
  hwBuffer : U32
  hwLen : U32
  hwMode : U32
  swToken : τ
  swBuffer : U32
  swLen : U32

/-- The kernel's gen_pool on chunks of one size: which free chunk an
allocation returns is the allocator's choice, and it fails only when every
chunk is taken. -/
structure GenPool where
  alloc : Finset ℕ → Option ℕ
  alloc_mem : ∀ avail d, alloc avail = some d → d ∈ avail
  alloc_none : ∀ avail, alloc avail = none → avail = ∅

/-- The allocator's default algorithm: the lowest free chunk. -/
def genPoolFirstFit : GenPool where
  alloc avail := if h : avail.Nonempty then some (avail.min' h) else none
  alloc_mem avail d h := by
    split at h
    · cases h
      exact Finset.min'_mem _ _
    · cases h
  alloc_none avail h := by
    split at h
    · cases h
    · exact Finset.not_nonempty_iff_eq_empty.mp ‹_›

/-- The descriptor pool: equal chunks, mapped at `iomap` for the driver and at
`hwAddr` for the engine. The bus range lies inside the 32-bit address space. -/
structure CpdmaDescPool where
  hwAddr : ℕ
  iomap : ℕ
  descSize : ℕ
  numDesc : ℕ
  genPool : GenPool
  hwAddr_pos : 0 < hwAddr
  iomap_pos : 0 < iomap
  descSize_pos : 0 < descSize
  hw_end : hwAddr + numDesc * descSize ≤ 2 ^ 32

namespace CpdmaDescPool

variable (pool : CpdmaDescPool)

/-- The chunks that gen_pool_add_virt handed to the allocator. -/
def descs : Finset ℕ := (Finset.range pool.numDesc).image fun i => pool.iomap + i * pool.descSize

theorem mem_descs {d : ℕ} :
    d ∈ pool.descs ↔ ∃ i < pool.numDesc, pool.iomap + i * pool.descSize = d := by
  simp [descs]

theorem ne_zero_of_mem {d : ℕ} (h : d ∈ pool.descs) : d ≠ 0 := by
  obtain ⟨i, -, rfl⟩ := pool.mem_descs.mp h
  have := pool.iomap_pos
  omega

theorem card_descs : pool.descs.card = pool.numDesc := by
  unfold descs
  rw [Finset.card_image_of_injective, Finset.card_range]
  intro i j hij
  have hmul : i * pool.descSize = j * pool.descSize := by simpa using hij
  exact Nat.eq_of_mul_eq_mul_right pool.descSize_pos hmul

end CpdmaDescPool

def descPhys (pool : CpdmaDescPool) (desc : ℕ) : ℕ :=
  if desc = 0 then 0 else pool.hwAddr + desc - pool.iomap

def descFromPhys (pool : CpdmaDescPool) (dma : ℕ) : ℕ :=
  if dma ≠ 0 then pool.iomap + dma - pool.hwAddr else 0

@[simp] theorem descPhys_zero (pool : CpdmaDescPool) : descPhys pool 0 = 0 := rfl

@[simp] theorem descFromPhys_zero (pool : CpdmaDescPool) : descFromPhys pool 0 = 0 := rfl

theorem descPhys_lt (pool : CpdmaDescPool) {d : ℕ} (hd : d ∈ pool.descs) :
    0 < descPhys pool d ∧ descPhys pool d < 2 ^ 32 := by
  obtain ⟨i, hi, rfl⟩ := pool.mem_descs.mp hd
  have hio := pool.iomap_pos
  have hhw := pool.hwAddr_pos
  have hend := pool.hw_end
  have hsz := pool.descSize_pos
  have hmul : i * pool.descSize + pool.descSize ≤ pool.numDesc * pool.descSize := by
    calc i * pool.descSize + pool.descSize = (i + 1) * pool.descSize := by ring
      _ ≤ pool.numDesc * pool.descSize := Nat.mul_le_mul_right _ hi
  simp only [descPhys]
  split <;> omega

/-- What the driver stores of a descriptor pointer it can get back. -/
theorem descFromPhys_descPhys (pool : CpdmaDescPool) {d : ℕ} (hd : d ∈ pool.descs) :
    descFromPhys pool (BitVec.ofNat 32 (descPhys pool d)).toNat = d := by
  have hlt := descPhys_lt pool hd
  have hne := pool.ne_zero_of_mem hd
  rw [BitVec.toNat_ofNat, Nat.mod_eq_of_lt hlt.2]
  obtain ⟨i, -, rfl⟩ := pool.mem_descs.mp hd
  simp only [descPhys, hne, if_false, descFromPhys] at hlt ⊢
  rw [if_pos (by omega)]
  omega

/-- struct cpdma_params, as far as the channel code reads it. A packet, padded
to the minimum or not, is shorter than 64 KiB. -/
structure CpdmaParams where
  pool : CpdmaDescPool
  minPacketSize : ℕ
  numChan : ℕ
  hasSoftReset : Bool
  hasExtRegs : Bool
  minPacketSize_lt : minPacketSize < 2 ^ 16

structure CpdmaChanStats where
  headEnqueue : ℕ := 0
  tailEnqueue : ℕ := 0
  misqueued : ℕ := 0
  descAllocFail : ℕ := 0
  runtTransmitBuff : ℕ := 0
  emptyDequeue : ℕ := 0
  busyDequeue : ℕ := 0
  goodDequeue : ℕ := 0
  requeue : ℕ := 0
  teardownDequeue : ℕ := 0
  deriving DecidableEq, Repr

/-- struct cpdma_chan with the values last seen in its HDP, CP and RXFREE registers. -/
structure CpdmaChan where
  head : ℕ := 0
  tail : ℕ := 0
  hdp : U32 := 0
  cp : U32 := 0
  rxfree : U32 := 0
  state : CpdmaState := .idle
  count : ℕ := 0
  descNum : ℕ := 0
  weight : ℤ := 0
  rateFactor : U32 := 0
  rate : U32 := 0
  stats : CpdmaChanStats := {}
  deriving DecidableEq, Repr

def chanMask (ch : ChanId) : U32 := 1#32 <<< chanLinear ch

/-- struct cpdma_ctlr with the descriptor memory, the free chunks of its pool
and the DMA registers. -/
structure CpdmaCtlr (τ : Type*) where
  state : CpdmaState
  avail : Finset ℕ
  mem : ℕ → CpdmaDesc τ
  channels : ChanId → Option CpdmaChan
  chanNum : ℕ
  numRxDesc : ℤ
  numTxDesc : ℤ
  regs : ℕ → U32

namespace CpdmaCtlr

variable {τ : Type*}

def setChan (ctlr : CpdmaCtlr τ) (ch : ChanId) (chan : CpdmaChan) : CpdmaCtlr τ :=
  { ctlr with channels := Function.update ctlr.channels ch (some chan) }

def dmaRegWrite (ctlr : CpdmaCtlr τ) (ofs : ℕ) (v : U32) : CpdmaCtlr τ :=
  { ctlr with regs := Function.update ctlr.regs ofs v }

end CpdmaCtlr

/-- desc_read of hw_next, turned back into a pointer. -/
def nextDesc {τ : Type*} (pool : CpdmaDescPool) (mem : ℕ → CpdmaDesc τ) (d : ℕ) : ℕ :=
  descFromPhys pool (mem d).hwNext.toNat

end CpswDriver.Cpdma
