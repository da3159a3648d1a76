import StackCalculator.Proofs.Delivery

/-!
# Decoding before or after lines are cut

An input cuts the bytes of a line out of its bytes, drops the carriage return, and decodes what is
left. The other way round, the bytes could be decoded at once, and the lines be cut out of the text.
These are the same lines: a line feed or a carriage return that ends a line is an ASCII byte, which
no malformed part reaches across, and no other bytes are read as one. So a session cannot tell
malformed bytes from the bytes of the text that they are read as, whichever of the two its input
holds.

## Main definitions

* `textLines`: the lines of a text
* `TokenReader.shown`: what a token reader shows beside its input

## Main results

* `Input.lines_eq_textLines`: the lines of an input are those of its text
* `Session.decoded_alike`: a session over bytes is one over the text that they are read as
-/

namespace StackCalculator

/-! ## The lines of a text -/

/-- A line without the carriage return at its end. -/
def withoutReturn (line : List Char) : List Char :=
  if line.getLast? = some '\r' then line.dropLast else line

/-- **The lines of a text**: those that a line feed ends, and what is left behind the last line
feed, if there is anything left and no failure hides it. -/
def textLines (failure? : Option String) (text : List Char) : List (List Char) :=
  let pieces := text.splitOn '\n'
  let rest := pieces.getLast (List.splitOn_ne_nil _ _)
  pieces.dropLast.map withoutReturn ++ if failure? = none ∧ rest ≠ [] then [rest] else []

variable {text line : List Char} {failure? : Option String}

theorem textLines_append (h : '\n' ∉ line) (text : List Char) (failure? : Option String) :
    textLines failure? (line ++ '\n' :: text) = withoutReturn line :: textLines failure? text := by
  have hpieces := List.splitOn_append_cons_self_of_not_mem h text
  have hne := List.splitOn_ne_nil '\n' text
  simp only [textLines, hpieces, List.getLast_cons hne, List.dropLast_cons_of_ne_nil hne,
    List.map_cons, List.cons_append]

theorem textLines_of_notMem (h : '\n' ∉ text) (failure? : Option String) :
    textLines failure? text = if failure? = none ∧ text ≠ [] then [text] else [] := by
  simp only [textLines, List.splitOn_eq_singleton h, List.getLast_singleton,
    List.dropLast_singleton, List.map_nil, List.nil_append]

/-- A character of a line is one of the text. -/
theorem mem_of_mem_textLines {failure? : Option String} {text line : List Char} {c : Char}
    (hline : line ∈ textLines failure? text) (hc : c ∈ line) : c ∈ text := by
  induction hn : text.length using Nat.strong_induction_on generalizing text with
  | _ n ih =>
    by_cases hmem : '\n' ∈ text
    · obtain ⟨first, rest, rfl, hfirst⟩ := List.eq_append_cons_of_mem hmem
      have hlt : rest.length < n := by
        rw [← hn, List.length_append, List.length_cons]
        omega
      rw [textLines_append hfirst] at hline
      rcases List.mem_cons.mp hline with rfl | hline
      · refine List.mem_append_left _ ?_
        rw [withoutReturn] at hc
        split at hc
        · exact (List.dropLast_sublist first).subset hc
        · exact hc
      · exact List.mem_append_right _ (List.mem_cons_of_mem _ (ih _ hlt hline rfl))
    · rw [textLines_of_notMem hmem] at hline
      split at hline
      · rwa [List.mem_singleton.mp hline] at hc
      · cases hline

namespace Input

/-- A carriage return at the end is dropped before or after decoding. -/
theorem withoutReturn_decode (line : List UInt8) :
    withoutReturn (Utf8.decode line) = Utf8.decode (dropReturn line) := by
  by_cases h : line.getLast? = some 13
  · obtain ⟨line, rfl⟩ := List.getLast?_eq_some_iff.mp h
    have hdecode : Utf8.decode (line ++ [13]) = Utf8.decode line ++ ['\r'] :=
      Utf8.decode_ascii (by decide) line []
    rw [dropReturn, if_pos h, List.dropLast_concat, hdecode, withoutReturn, List.getLast?_concat,
      if_pos rfl, List.dropLast_concat]
  · have hne : (Utf8.decode line).getLast? ≠ some '\r' := fun hlast =>
      h ((Utf8.readsAs_decode line).getLast?_of_getLast? (by decide) hlast)
    rw [dropReturn, if_neg h, withoutReturn, if_neg hne]

/-- **The lines of an input are those of its text.** -/
theorem lines_eq_textLines (bytes : List UInt8) (failure? : Option String) :
    lines ⟨bytes, failure?⟩ = textLines failure? (Utf8.decode bytes) := by
  induction hn : bytes.length using Nat.strong_induction_on generalizing bytes with
  | _ n ih =>
    by_cases hmem : lineFeed ∈ bytes
    · obtain ⟨line, rest, rfl, hline⟩ := List.eq_append_cons_of_mem hmem
      have hlt : rest.length < n := by
        rw [← hn, List.length_append, List.length_cons]
        omega
      have hdecode : Utf8.decode (line ++ lineFeed :: rest) =
          Utf8.decode line ++ '\n' :: Utf8.decode rest :=
        Utf8.decode_ascii (by decide) line rest
      rw [lines_of_line (fetch_append_lineFeed hline _ _), ih rest.length hlt rest rfl, hdecode,
        textLines_append (Utf8.lineFeed_notMem_decode hline), withoutReturn_decode]
    · rw [textLines_of_notMem (Utf8.lineFeed_notMem_decode hmem), lines_of_lineFeed_notMem hmem]
      exact if_congr (and_congr_right' (not_congr Utf8.decode_eq_nil_iff.symm)) rfl rfl

/-- A character of a line is one that is read from the bytes. -/
theorem mem_of_mem_lines {input : Input} {line : List Char} {c : Char} (hline : line ∈ input.lines)
    (hc : c ∈ line) : c ∈ Utf8.decode input.bytes := by
  have hlines : input.lines = textLines input.failure? (Utf8.decode input.bytes) :=
    lines_eq_textLines input.bytes input.failure?
  exact mem_of_mem_textLines (hlines ▸ hline) hc

end Input

/-! ## What shows of a reader -/

namespace TokenReader

/-- **What a token reader shows beside its input.** -/
def shown (r : TokenReader) : Display :=
  { r.display with input := ⟨[], none⟩ }

/-- A call leaves what stands behind the input. -/
theorem perform_failure? (call : ReaderCall) (r : TokenReader) :
    (r.perform call).2.input.failure? = r.input.failure? := by
  cases call with
  | next =>
    rw [← r.ready_failure?]
    simp only [perform, next]
    rcases r.ready with ⟨i | u, r'⟩ <;> rfl
  | putBack => rfl
  | dropRest => rfl

/-- **Readers that get the same lines show the same**, whatever calls are made. -/
theorem Alike.observations {r r' : TokenReader} (h : r.Alike r')
    (hsame : r.input.failure? = r'.input.failure?) (script : List ReaderCall) :
    observations TokenReader.perform shown script r =
      observations TokenReader.perform shown script r' := by
  have hstep : ∀ (call : ReaderCall) (r r' : TokenReader),
      r.Alike r' ∧ r.input.failure? = r'.input.failure? →
      (r.perform call).1 = (r'.perform call).1 ∧ (r.perform call).2.Alike (r'.perform call).2 ∧
        (r.perform call).2.input.failure? = (r'.perform call).2.input.failure? := by
    rintro call r r' ⟨h, hsame⟩
    obtain ⟨hanswer, halike⟩ := h.perform (fun _ => hsame) call
    exact ⟨hanswer, halike, by rw [perform_failure?, perform_failure?, hsame]⟩
  have hshow : ∀ r r' : TokenReader,
      r.Alike r' ∧ r.input.failure? = r'.input.failure? → r.shown = r'.shown := by
    rintro r r' ⟨h, -⟩
    rw [shown, shown, display, display, h.line, h.output]
  exact observations_congr hstep hshow script ⟨h, hsame⟩

end TokenReader

namespace Session

/-- **A session over bytes is one over the text that they are read as.** Malformed bytes are read in
the one way that there is, and the lines of the input are those of the text. So a session takes the
same steps over the bytes and over the bytes of the text, it runs to the same end, and whatever
calls are made, its reader gives the same tokens and columns. -/
theorem decoded_alike (s : Session) (bytes : List UInt8) (failure? : Option String) :
    let text := Utf8.decode bytes
    let raw := s.on ⟨bytes, failure?⟩ s.reader.output
    let decoded := s.on ⟨Utf8.encode text, failure?⟩ s.reader.output
    (∀ other, Utf8.ReadsAs bytes other ↔ other = text) ∧
      Input.lines ⟨bytes, failure?⟩ = textLines failure? text ∧
      (∀ n, (raw.after n).step.1 = (decoded.after n).step.1 ∧
        (raw.after n).Alike (decoded.after n)) ∧
      (raw.run.1 = decoded.run.1 ∧ raw.run.2.Alike decoded.run.2 ∧ raw.steps = decoded.steps) ∧
      ∀ script, observations TokenReader.perform TokenReader.shown script raw.reader =
        observations TokenReader.perform TokenReader.shown script decoded.reader := by
  intro text raw decoded
  have hlines : Input.lines ⟨bytes, failure?⟩ = Input.lines ⟨Utf8.encode text, failure?⟩ := by
    rw [Input.lines_eq_textLines, Input.lines_eq_textLines, Utf8.decode_encode]
  have halike : raw.Alike decoded := alike_on hlines
  exact ⟨fun other => Utf8.readsAs_iff, Input.lines_eq_textLines bytes failure?,
    halike.after rfl, halike.run rfl, halike.reader.observations rfl⟩

end Session

end StackCalculator
