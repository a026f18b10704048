import MetricTree.Identity.Pool

namespace MetricTree.Identity

theorem pairPieces_cons (pair : Value × Value) (rest : List (Value × Value)) :
    pairPieces Value.text (pair :: rest) =
      [pair.1, .text "=", pair.2] ++ ((if rest.isEmpty then [] else [.text ","]) ++ pairPieces .text rest) := by
  cases rest <;> rfl

theorem run_writePairs (tags : Table Value Value) (first : Bool) (keys : List Value) (buffer : Buffer) :
    (writePairs tags first keys).run buffer = .ok () (buffer ++
      ((if first || keys.isEmpty then [] else [.text ","]) ++
        pairPieces .text (keys.map fun key => (key, (tags.get? key).getD .null)))) := by
  induction keys generalizing first buffer with
  | nil =>
    rw [List.isEmpty_nil, Bool.or_true]
    exact congrArg _ (List.append_nil _).symm
  | cons key rest ih =>
    have next : (writePairs tags first (key :: rest)).run buffer =
        (writePairs tags false rest).run (buffer ++ (if first then [] else [.text ","]) ++ [key] ++
          [.text "="] ++ [(tags.get? key).getD .null]) := by
      cases first
      · rfl
      · rw [if_pos rfl, List.append_nil]
        rfl
    rw [next, ih, List.map_cons, pairPieces_cons, List.isEmpty_map]
    simp only [List.append_assoc, List.isEmpty_cons, Bool.or_false, Bool.false_or, List.cons_append, List.nil_append]

/-- What is written before the keys are sorted stays even if they cannot be. -/
theorem run_writePieces (stem : Value) (tags : Table Value Value) (buffer : Buffer) :
    (writePieces stem tags).run buffer = match valuePieces stem tags with
      | .ok written => .ok () (buffer ++ written)
      | .error fault => .error fault (buffer ++ if stem.isTruthy then [stem, .text "+"] else []) := by
  have front : (writePieces stem tags).run buffer = match sortKeys tags.keys with
      | .ok keys => (writePairs tags true keys).run (if stem.isTruthy then buffer ++ [stem] ++ [.text "+"] else buffer)
      | .error fault => .error fault (if stem.isTruthy then buffer ++ [stem] ++ [.text "+"] else buffer) := by
    unfold writePieces
    cases stem.isTruthy <;> cases sortKeys tags.keys <;> rfl
  rw [front, valuePieces]
  cases sortKeys tags.keys with
  | error fault => cases stem.isTruthy <;> simp [bind, Except.bind]
  | ok keys =>
    simp only [run_writePairs]
    cases stem.isTruthy <;> simp [bind, Except.bind, pieces, pure, Except.pure]

theorem run_writeIdentity (stem : Value) (tags : Table Value Value) (buffer : Buffer) :
    ∃ left, (writeIdentity stem tags).run buffer =
      (ofExcept (do joinFrom 0 (buffer ++ (← valuePieces stem tags))) : Scratch Text).run left := by
  rw [writeIdentity, Work.run_bind, run_writePieces]
  cases valuePieces stem tags <;> exact ⟨_, rfl⟩

/-- Nothing is left on the buffer, also where the identity could not be written. -/
theorem run_writeAndClear (stem : Value) (tags : Table Value Value) (buffer : Buffer) :
    (writeAndClear stem tags).run buffer =
      (ofExcept (do joinFrom 0 (buffer ++ (← valuePieces stem tags))) : Scratch Text).run [] := by
  obtain ⟨left, wrote⟩ := run_writeIdentity stem tags buffer
  rw [writeAndClear, Work.run_finally, wrote]
  cases (do joinFrom 0 (buffer ++ (← valuePieces stem tags)) : Except Fault Text) <;> rfl

/-- Encodes on a buffer from the pool all at once, and puts back an empty one. -/
def encodeAtOnce (pool : Pool Buffer) (stem : Value) (tags : Table Value Value) : Except Fault Text × Pool Buffer :=
  let (taken, rest) := pool.take
  (do joinFrom 0 (taken.getD [] ++ (← valuePieces stem tags)), rest.put [])

/-- Writing piece by piece and clearing the buffer comes to the same, whatever the pool holds. -/
theorem encodePooled_eq_atOnce (pool : Pool Buffer) (stem : Value) (tags : Table Value Value) :
    encodePooled pool stem tags = encodeAtOnce pool stem tags := by
  rcases given : pool.take with ⟨taken, rest⟩
  simp only [encodePooled, encodeAtOnce, given, run_writeAndClear]
  cases (do joinFrom 0 (taken.getD [] ++ (← valuePieces stem tags)) : Except Fault Text) <;> rfl

end MetricTree.Identity
