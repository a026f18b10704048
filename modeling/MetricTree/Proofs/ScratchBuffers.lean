import MetricTree.Proofs.Supplies
import MetricTree.Proofs.UniqueIdentities

namespace MetricTree

namespace Identity

/-- A pool of cleared buffers that is not more than full. -/
structure Clean (pool : Pool Buffer) : Prop where
  limited : pool.capacity = buffers.capacity
  bounded : pool.size ≤ pool.capacity
  cleared : ∀ buffer ∈ pool.idle, buffer = []

theorem Clean.encodePooled {pool : Pool Buffer} (clean : Clean pool) (stem : Value) (tags : Table Value Value) :
    Clean (encodePooled pool stem tags).2 := by
  obtain ⟨limited, bounded, cleared⟩ := clean
  rw [encodePooled_eq_atOnce]
  have capacity : (pool.take.2.put []).capacity = pool.capacity := by rw [Pool.capacity_put, Pool.capacity_take]
  have positive : 0 < pool.capacity := limited ▸ by decide
  refine ⟨capacity.trans limited, ?_, encodePooled_eq_atOnce pool stem tags ▸ emptied_encodePooled cleared stem tags⟩
  have size : (pool.take.2.put []).size = max pool.size 1 := Pool.size_put_take positive bounded []
  change ((pool.take.2.put []).size : Int) ≤ (pool.take.2.put []).capacity
  omega

/-- Encodes one stem and tags after the other on buffers of one pool. Each answer comes with the pool that it leaves. -/
def encodeAll (encoder : Pool Buffer → Value → Table Value Value → Except Fault Text × Pool Buffer)
    (pool : Pool Buffer) : List (Value × Table Value Value) → List (Except Fault Text × Pool Buffer)
  | [] => []
  | (stem, tags) :: rest => encoder pool stem tags :: encodeAll encoder (encoder pool stem tags).2 rest

/-- Whatever is encoded, one after the other, on buffers from a pool of cleared ones: every answer, be it an identity or
a fault, is the one that there is without a pool, and leaves no more buffers than the pool may hold, all of them cleared.
Pieces that were written before a fault came up make no difference. -/
theorem pool_never_shows {pool : Pool Buffer} (limited : pool.capacity = 512) (bounded : pool.size ≤ 512)
    (cleared : ∀ buffer ∈ pool.idle, buffer = []) (calls : List (Value × Table Value Value)) :
    (encodeAll encodePooled pool calls).map (·.1) = calls.map (fun call => encodeValues call.1 call.2) ∧
    (∀ answer ∈ encodeAll encodePooled pool calls,
      answer.2.size ≤ 512 ∧ ∀ buffer ∈ answer.2.idle, buffer = []) ∧
    encodeAll encodePooled pool calls = encodeAll encodeAtOnce pool calls := by
  have clean : Clean pool := ⟨limited, limited ▸ Int.ofNat_le.mpr bounded, cleared⟩
  clear limited bounded cleared
  refine ⟨?_, ?_, ?_⟩
  · induction calls generalizing pool with
    | nil => rfl
    | cons call rest ih =>
      rw [encodeAll, List.map_cons, List.map_cons, encodePooled_eq clean.cleared, ih (clean.encodePooled ..)]
  · induction calls generalizing pool with
    | nil => exact List.forall_mem_nil _
    | cons call rest ih =>
      have next := clean.encodePooled call.1 call.2
      refine List.forall_mem_cons.mpr ⟨⟨?_, next.cleared⟩, ih next⟩
      exact Int.ofNat_le.mp (le_of_le_of_eq next.bounded next.limited)
  · have same : encodePooled = encodeAtOnce := funext₃ encodePooled_eq_atOnce
    rw [same]

/-- Keys that cannot be sorted and a stem that is no text, each before tags that are encoded, on a pool of two buffers.
The first fault comes up with the stem and the plus written already. -/
theorem pool_never_shows_failing :
    let tags : Table Value Value := ⟨[(.text "k", .text "v")]⟩
    let mixed : Table Value Value := ⟨[(.text "k", .text "v"), (.int 1, .text "w")]⟩
    let answers := encodeAll encodePooled ⟨512, [[], []]⟩
      [(.text "p", mixed), (.text "p", tags), (.int 7, tags), (.text "p", tags)]
    (writePieces (.text "p") mixed).run [] = .error (.notComparable "int" "str") [.text "p", .text "+"] ∧
      answers.map (·.1) =
        [.error (.notComparable "int" "str"), .ok "p+k=v", .error (.pieceNotText 0 "int"), .ok "p+k=v"] ∧
      ∀ answer ∈ answers, answer.2.size ≤ 512 ∧ ∀ buffer ∈ answer.2.idle, buffer = [] := by
  intro tags mixed answers
  obtain ⟨same, clean, _⟩ := @pool_never_shows ⟨512, [[], []]⟩ rfl (by decide) (by decide)
    [(.text "p", mixed), (.text "p", tags), (.int 7, tags), (.text "p", tags)]
  have sorted : sortKeys tags.keys = .ok [.text "k"] := by
    change Except.ok (([("k" : Text)].mergeSort _).map Value.text) = _
    rw [List.mergeSort_singleton]
    rfl
  have unsorted : sortKeys mixed.keys = .error (.notComparable "int" "str") := by
    change Sorting.sort Value.less [.text "k", .int 1] = _
    rw [Sorting.sort, Sorting.mergeRuns]
    rfl
  refine ⟨?_, same.trans ?_, clean⟩
  · rw [run_writePieces, valuePieces, unsorted]
    rfl
  · have joined : "p" ++ ("+" ++ ("k" ++ ("=" ++ ("v" ++ "")))) = "p+k=v" := by decide
    simp only [List.map, encodeValues, valuePieces, sorted, unsorted, ← joined]
    rfl

end Identity

end MetricTree
