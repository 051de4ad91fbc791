import Mathlib.Data.List.Basic

/-!
# Event streams

The text of an event stream is read as lines, which end with CR, LF or both, and as blocks
of lines, which end with a blank line. What the text ends in the middle of is dropped. The
payload of a block is what its `data` lines carry. A payload without line breaks can be sent
as one such line and a blank one, and is found again.
-/
namespace InferenceGateway.Library.EventStream

/-- The lines of a text, the first of which has begun already. -/
def linesFrom (line : List Char) : List Char → List (List Char)
  | [] => []
  | '\r' :: '\n' :: text => line :: linesFrom [] text
  | '\r' :: text => line :: linesFrom [] text
  | '\n' :: text => line :: linesFrom [] text
  | c :: text => linesFrom (line ++ [c]) text

def blocksFrom (block : List (List Char)) : List (List Char) → List (List (List Char))
  | [] => []
  | [] :: lines => if block = [] then blocksFrom [] lines else block :: blocksFrom [] lines
  | line :: lines => blocksFrom (block ++ [line]) lines

/-- The blocks of lines between blank lines. -/
def blocks (text : List Char) : List (List (List Char)) := blocksFrom [] (linesFrom [] text)

/-- What a line carries after `data:` and a blank. -/
def lineData : List Char → Option (List Char)
  | 'd' :: 'a' :: 't' :: 'a' :: ':' :: ' ' :: data => some data
  | 'd' :: 'a' :: 't' :: 'a' :: ':' :: data => some data
  | _ => none

def blockData (block : List (List Char)) : List Char :=
  ['\n'].intercalate (block.filterMap lineData)

/-- The payloads of a text. -/
def payloads (text : List Char) : List (List Char) := (blocks text).map blockData

/-- The line that carries a payload. -/
def dataLine (payload : List Char) : List Char := 'd' :: 'a' :: 't' :: 'a' :: ':' :: ' ' :: payload

def frame (payload : List Char) : List Char := dataLine payload ++ ['\n', '\n']

/-- No line break. -/
def OneLine (text : List Char) : Prop := '\n' ∉ text ∧ '\r' ∉ text

instance (text : List Char) : Decidable (OneLine text) := inferInstanceAs (Decidable (_ ∧ _))

theorem OneLine.append {text text' : List Char} (h : OneLine text) (h' : OneLine text') :
    OneLine (text ++ text') := by
  simp only [OneLine, List.mem_append, not_or]
  exact ⟨⟨h.1, h'.1⟩, h.2, h'.2⟩

theorem linesFrom_append {text : List Char} (h : OneLine text) (line rest : List Char) :
    linesFrom line (text ++ '\n' :: rest) = (line ++ text) :: linesFrom [] rest := by
  induction text generalizing line with
  | nil => simp [linesFrom]
  | cons c text ih =>
    obtain ⟨hlf, hcr⟩ := h
    rw [List.mem_cons, not_or] at hlf hcr
    have hnext : linesFrom line (c :: (text ++ '\n' :: rest)) =
        linesFrom (line ++ [c]) (text ++ '\n' :: rest) := by
      rw [linesFrom]
      · exact fun _ hc => absurd hc.symm hcr.1
      · exact fun hc => absurd hc.symm hcr.1
      · exact fun hc => absurd hc.symm hlf.1
    rw [List.cons_append, hnext, ih ⟨hlf.2, hcr.2⟩, List.append_assoc]
    rfl

/-- A frame is one block, of one line. -/
theorem blocks_frame {payload : List Char} (h : OneLine payload) (rest : List Char) :
    blocks (frame payload ++ rest) = [dataLine payload] :: blocks rest := by
  have hline : OneLine (dataLine payload) :=
    OneLine.append (by decide : OneLine ['d', 'a', 't', 'a', ':', ' ']) h
  have hlines : linesFrom [] (frame payload ++ rest) =
      dataLine payload :: [] :: linesFrom [] rest := by
    have hfirst := linesFrom_append hline [] ('\n' :: rest)
    have hsecond := linesFrom_append (by decide : OneLine []) [] rest
    rw [List.nil_append, List.nil_append] at hsecond
    rw [frame, List.append_assoc]
    exact hfirst.trans (congrArg _ hsecond)
  unfold blocks
  rw [hlines]
  rfl

theorem blocks_frames {payloads : List (List Char)} (h : ∀ payload ∈ payloads, OneLine payload) :
    blocks (payloads.flatMap frame) = payloads.map fun payload => [dataLine payload] := by
  induction payloads with
  | nil => rfl
  | cons payload payloads ih =>
    obtain ⟨hpayload, hrest⟩ := List.forall_mem_cons.mp h
    rw [List.flatMap_cons, blocks_frame hpayload, ih hrest, List.map_cons]

theorem blockData_dataLine (payload : List Char) : blockData [dataLine payload] = payload := by
  have hline : lineData (dataLine payload) = some payload := rfl
  simp [blockData, hline]

/-- The payloads that have been sent are found again. -/
theorem payloads_frames {sent : List (List Char)} (h : ∀ payload ∈ sent, OneLine payload) :
    payloads (sent.flatMap frame) = sent := by
  rw [payloads, blocks_frames h, List.map_map]
  exact List.map_id'' (fun payload => blockData_dataLine payload) sent

end InferenceGateway.Library.EventStream
