import EltexPractice.Foundations.ByteMemory

/-!
# The shared list of blocks

The critical sections of tasks 4 and 5. Both programs keep a list of blocks in one segment of
shared memory: a header, then the blocks, linked by their offsets in the segment. The two versions
differ in the header and in where the producer takes the limit of the segment from; the blocks and
the loops are the same.

Addresses are offsets in the segment. A section runs under the semaphore, so it is one computation
on the memory; `rand k` is what the `k`-th call of `rand` returns. A loop over the list has fuel.
-/

namespace EltexPractice.SharedList

/-! ## Layout -/

/-- The two programs: System V shared memory (task 4) and POSIX shared memory (task 5). -/
inductive Version
  | task04
  | task05
  deriving DecidableEq

namespace Version

/-- The offset of `first_block_offset` in `struct ShmHeader`. -/
def firstBlockOffset : Version → ℕ
  | task04 => 0
  | task05 => 8

/-- The offset of `free_offset`. -/
def freeOffset : Version → ℕ
  | task04 => 8
  | task05 => 16

/-- The offset of `producer_done`. -/
def producerDone : Version → ℕ
  | task04 => 16
  | task05 => 24

/-- `sizeof(struct ShmHeader)`. -/
def headerSize : Version → ℕ
  | task04 => 24
  | task05 => 32

/-- The fields lie one behind the other. -/
theorem fields (v : Version) :
    v.firstBlockOffset + 8 ≤ v.freeOffset ∧ v.freeOffset + 8 ≤ v.producerDone ∧
      v.producerDone + 4 ≤ v.headerSize ∧ 24 ≤ v.headerSize ∧ v.headerSize ≤ 32 := by
  cases v <;> decide

end Version

/-- `SHM_SIZE` and `DEFAULT_SHM_SIZE`. -/
def shmSize : ℕ := 4096

/-- `sizeof(struct Block)`, where the data begins; `next_block_offset` is at 8. -/
def sizeofBlock : ℕ := 16

/-- Addition of `size_t`. -/
def addSize (a b : ℕ) : ℕ := (a + b) % 2 ^ 64

/-! ## The producer -/

/-- What the producer prints about a block. -/
structure Generated where
  offset : ℕ
  count : ℕ
  elements : List ℤ
  deriving DecidableEq

/-- The critical section of `init_producer_ipc`. -/
def initProducerIpc (v : Version) : MemM Unit := do
  match v with
  | .task04 => pure ()
  | .task05 => store 8 0 shmSize
  store 8 v.firstBlockOffset 0
  store 8 v.freeOffset v.headerSize
  store 4 v.producerDone 0

/-- The limit the producer compares with: `SHM_SIZE`, or `shm_size` of the header. -/
def Version.limit : Version → MemM ℕ
  | .task04 => pure shmSize
  | .task05 => load 8 0

/-- The loop that fills and prints `data`, from index `i` on, `k` elements. -/
def fillLoop (rand : ℕ → ℕ) (block : ℕ) : (k i : ℕ) → MemM (List ℤ)
  | 0, _ => pure []
  | k + 1, i => do
    store 4 (block + sizeofBlock + 4 * i) (rand i % 100)
    let data ← load 4 (block + sizeofBlock + 4 * i)
    let rest ← fillLoop rand block k (i + 1)
    pure (toInt data :: rest)

/-- A block of `n` elements is written. -/
def placeBlock (rand : ℕ → ℕ) (block n : ℕ) : MemM (List ℤ) := do
  store 8 block n
  store 8 (block + 8) 0
  fillLoop rand block n 0

/-- A block is linked behind the last one, `last_block_offset`. -/
def linkBlock (v : Version) (lastBlockOffset block : ℕ) : MemM Unit := do
  let first ← load 8 v.firstBlockOffset
  if first = 0 then store 8 v.firstBlockOffset block
  else store 8 (lastBlockOffset + 8) block

/-- A block of `n` elements is appended to the list. -/
def appendBlock (v : Version) (rand : ℕ → ℕ) (lastBlockOffset n blockSize : ℕ) :
    MemM Generated := do
  let block ← load 8 v.freeOffset
  let elements ← placeBlock rand block n
  linkBlock v lastBlockOffset block
  let free ← load 8 v.freeOffset
  store 8 v.freeOffset (addSize free blockSize)
  pure ⟨block, n, elements⟩

/-- The critical section of `run_generation_loop`; `rand` is called from the `draws`-th call on.
Without a block the loop ends. -/
def runGenerationLoop (v : Version) (rand : ℕ → ℕ) (draws lastBlockOffset : ℕ) :
    MemM (Option Generated) := do
  let n := 5 + rand draws % 11
  let blockSize := sizeofBlock + n * 4
  let free ← load 8 v.freeOffset
  let limit ← v.limit
  if limit < addSize free blockSize then
    store 4 v.producerDone 1
    pure none
  else
    let g ← appendBlock v (fun i => rand (draws + 1 + i)) lastBlockOffset n blockSize
    pure (some g)

/-! ## The list -/

/-- The search for a block that is not processed yet: `none` when the fuel does not suffice,
`some none` at the end of the list. -/
def search : (fuel current : ℕ) → MemM (Option (Option ℕ))
  | 0, _ => pure none
  | fuel + 1, current => do
    if current = 0 then pure (some none)
    else
      let numElements ← load 8 current
      if 0 < numElements then pure (some (some current))
      else
        let next ← load 8 (current + 8)
        search fuel next

/-- The search from `first_block_offset`. -/
def findUnprocessed (v : Version) (fuel : ℕ) : MemM (Option (Option ℕ)) := do
  let first ← load 8 v.firstBlockOffset
  search fuel first

/-- The critical section of `wait_for_processing`: have all blocks been processed? -/
def waitForProcessing (v : Version) (fuel : ℕ) : MemM (Option Bool) := do
  let found ← findUnprocessed v fuel
  pure (found.map (·.isNone))

/-! ## The consumer -/

/-- What a consumer prints about a block. -/
structure Report where
  consumer : ℕ
  offset : ℕ
  count : ℕ
  elements : List ℤ
  min : ℤ
  max : ℤ

/-- How a pass of the consumer's loop ends. -/
inductive Pass
  | processed (r : Report)
  | waits
  | leaves

/-- The elements read by the loop over `data`, with `min` and `max` at its end. -/
structure Scan where
  elements : List ℤ
  min : ℤ
  max : ℤ

/-- The loop over `data`, from index `i` on, `k` elements. -/
def scanLoop (block : ℕ) : (k i : ℕ) → (min max : ℤ) → MemM Scan
  | 0, _, min, max => pure ⟨[], min, max⟩
  | k + 1, i, min, max => do
    let data ← load 4 (block + sizeofBlock + 4 * i)
    let val := toInt data
    let scan ← scanLoop block k (i + 1) (if val < min then val else min)
      (if val > max then val else max)
    pure { scan with elements := val :: scan.elements }

/-- A consumer reports a block and marks it as processed. -/
def processBlock (consumer block : ℕ) : MemM Report := do
  let n ← load 8 block
  let min ← load 4 (block + sizeofBlock)
  let max ← load 4 (block + sizeofBlock)
  let scan ← scanLoop block n 0 (toInt min) (toInt max)
  store 8 block 0
  pure ⟨consumer, block, n, scan.elements, scan.min, scan.max⟩

/-- The critical section of `run_consumer_loop`. -/
def runConsumerLoop (v : Version) (fuel consumer : ℕ) : MemM (Option Pass) := do
  let found ← findUnprocessed v fuel
  match found with
  | none => pure none
  | some (some block) =>
    let report ← processBlock consumer block
    pure (some (.processed report))
  | some none =>
    let done ← load 4 v.producerDone
    if done ≠ 0 then pure (some .leaves)
    else pure (some .waits)

end EltexPractice.SharedList
