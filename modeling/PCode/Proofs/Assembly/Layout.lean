import Mathlib.Data.List.TakeWhile
import Mathlib.Logic.Relation
import PCode.Proofs.Assembly.Reassembly
import PCode.Proofs.Text.LetterCase
import PCode.Proofs.Text.Lines

/-!
# Layout and letter case

A text can be laid out anew without a change of what it denotes: letters in the other case, carriage
returns in front of the line feeds, comments behind the lines, other separators between the words.
Errors stay the same as well, except that a malformed number is quoted as it is written.

* `Relaid`: one such change of a text.
* `caseless`: what a line denotes, where the letters of a malformed number are in upper case.
* `caseless_map_toUpper`, `lineWords_append_blank`, `lineWords_comment`, `lineWords_gap`: a line.
* `Relaid.map_caseless`: the lines of a text, after one change.
* `assemble_relaid`: a text, after any number of changes.
-/

namespace PCode

namespace Assembly

open Text

/-! ## Changes of a text -/

/-- Commas and white space, at least one character, without a line feed. -/
def IsGap (gap : String) : Prop :=
  gap ≠ "" ∧ ∀ c ∈ gap.toList, isSeparator c ∧ c ≠ '\n'

instance : DecidablePred IsGap := fun gap =>
  decidable_of_iff (gap ≠ "" ∧ gap.toList.all fun c => isSeparator c && c != '\n') (by simp [IsGap])

/-- The text ends within the content of a line, and a word has started in this content. -/
def BehindWord (front : String) : Prop :=
  ∃ before line, lines front = before ++ [line] ∧ ';' ∉ line ∧ ∃ c ∈ line, isSeparator c = false

/-- The text is what follows a whole line: nothing, or the end of the line and other lines. -/
def EndsLine (rest : String) : Prop :=
  rest = "" ∨ ∃ others, rest = "\n" ++ others ∨ rest = "\r\n" ++ others

/-- The text with a carriage return in front of every line feed. -/
def withReturns (text : String) : String :=
  String.ofList (text.toList.flatMap fun c => if c = '\n' then ['\r', '\n'] else [c])

/-- The second text is the first one with one change of its layout or of letter case. -/
inductive Relaid : String → String → Prop
  /-- ASCII letters anywhere are in another case. -/
  | recased {s t : String} : s.toUpper = t.toUpper → Relaid s t
  /-- Every line feed gets a carriage return in front. -/
  | returned (s : String) : Relaid s (withReturns s)
  /-- A line gets a comment at its end. -/
  | commented {front note rest : String} : '\n' ∉ note.toList → EndsLine rest →
    Relaid (front ++ rest) (front ++ (";" ++ note ++ rest))
  /-- A gap behind the first word of a line becomes another gap. -/
  | respaced {front gap gap' rest : String} : BehindWord front → IsGap gap → IsGap gap' →
    Relaid (front ++ (gap ++ rest)) (front ++ (gap' ++ rest))

/-- The two errors are the same, but for the case of the letters in a malformed number. -/
inductive SameButCase : LineError → LineError → Prop
  | same {e : LineError} : SameButCase e e
  | malformed {w w' : String} : w.toUpper = w'.toUpper →
    SameButCase (.invalidNumber w) (.invalidNumber w')

/-! ## Errors without letter case -/

/-- The error with the letters of a malformed number in upper case. -/
def LineError.foldCase : LineError → LineError
  | .invalidNumber word => .invalidNumber word.toUpper
  | e => e

/-- The error with the letters of a malformed number in upper case. -/
def Error.foldCase (e : Error) : Error := { e with cause := e.cause.foldCase }

theorem sameButCase_of_foldCase {e e' : LineError} (h : e.foldCase = e'.foldCase) :
    SameButCase e e' := by
  cases e <;> cases e'
  case invalidNumber.invalidNumber w w' => exact .malformed (LineError.invalidNumber.inj h)
  all_goals cases h
  all_goals exact .same

/-- What a line denotes, where the letters of a malformed number are in upper case. -/
def caseless (line : List Char) : Except LineError (Option Instruction) :=
  (ofLine line).mapError LineError.foldCase

theorem caseless_congr {line line' : List Char} (h : lineWords line = lineWords line') :
    caseless line = caseless line' := by
  rw [caseless, ofLine, lineTokens, h]
  rfl

/-! ## Letter case -/

theorem isSeparator_toUpper (c : Char) : isSeparator c.toUpper = isSeparator c := by
  rw [isSeparator, isSeparator, toUpper_beq rfl, isBlank_toUpper]

theorem content_map_toUpper (line : List Char) :
    content (line.map Char.toUpper) = (content line).map Char.toUpper := by
  have hsemicolon : (· != ';') ∘ Char.toUpper = (· != ';') := by
    funext c
    exact congrArg (!·) (toUpper_beq rfl c)
  rw [content, content, List.takeWhile_map, hsemicolon]

theorem isComment_map_toUpper (cs : List Char) :
    isComment (cs.map Char.toUpper) = isComment cs := by
  have hblank : isBlank ∘ Char.toUpper = isBlank := funext isBlank_toUpper
  rw [isComment, isComment, List.dropWhile_map, hblank, List.head?_map]
  cases (cs.dropWhile isBlank).head? with
  | none => rfl
  | some c => exact toUpper_beq (a := '#') rfl c

theorem words_map_toUpper (cs : List Char) :
    words (cs.map Char.toUpper) = (words cs).map (List.map Char.toUpper) := by
  rw [words, words, pieces_map isSeparator_toUpper, List.filter_map]
  congr 2
  funext piece
  simp

theorem isIndex_map_toUpper (word : List Char) :
    isIndex (word.map Char.toUpper) = isIndex word := by
  have hlast : ((word.map Char.toUpper).getLast? == some ':') = (word.getLast? == some ':') := by
    rw [List.getLast?_map]
    cases word.getLast? with
    | none => rfl
    | some c => exact toUpper_beq (a := ':') rfl c
  have hdigits : Char.isDigit ∘ Char.toUpper = Char.isDigit := funext isDigit_toUpper
  rw [isIndex, isIndex, hlast, ← List.map_dropLast, List.all_map, hdigits, List.isEmpty_map]

theorem lineWords_map_toUpper (line : List Char) :
    lineWords (line.map Char.toUpper) = (lineWords line).map (List.map Char.toUpper) := by
  rw [lineWords, lineWords, content_map_toUpper, isComment_map_toUpper, words_map_toUpper]
  split
  · rfl
  · cases words (content line) with
    | nil => rfl
    | cons word rest =>
      rw [List.map_cons, skipIndex, skipIndex, isIndex_map_toUpper]
      split <;> rfl

theorem foldCase_malformed (word : List Char) :
    LineError.foldCase (.invalidNumber (String.ofList (word.map Char.toUpper))) =
      LineError.foldCase (.invalidNumber (String.ofList word)) := by
  have htwice : Char.toUpper ∘ Char.toUpper = Char.toUpper := funext toUpper_toUpper
  apply congrArg LineError.invalidNumber
  apply String.toList_inj.mp
  rw [String.toUpper, String.toUpper, String.toList_map, String.toList_map, String.toList_ofList,
    String.toList_ofList, List.map_map, htwice]

theorem ofWord_of_ne {c : Char} (hc : c ≠ '#') (cs : List Char) :
    Token.ofWord (c :: cs) =
      if startsNumeral (c :: cs) then
        ((signed? (c :: cs)).map Token.number).elim
          (.error (.invalidNumber (String.ofList (c :: cs)))) .ok
      else .ok (.name (String.ofList (upper (c :: cs)))) := by
  rw [Token.ofWord]
  intro digits h
  exact hc (List.cons.inj h).1

/-- A word in upper case stands for the same token, or both are malformed. -/
theorem ofWord_map_toUpper (word : List Char) :
    (Token.ofWord (word.map Char.toUpper)).mapError LineError.foldCase =
      (Token.ofWord word).mapError LineError.foldCase := by
  have hfold := foldCase_malformed word
  cases word with
  | nil => rfl
  | cons c cs =>
    by_cases hc : c = '#'
    · subst hc
      have hraw : Token.rawCode? (cs.map Char.toUpper) = Token.rawCode? cs := by
        rw [Token.rawCode?, unsigned?_map_toUpper]
        rfl
      rw [List.map_cons, show '#'.toUpper = '#' from rfl, Token.ofWord, Token.ofWord, hraw]
      cases Token.rawCode? cs with
      | none => exact congrArg Except.error hfold
      | some code => rfl
    · have hc' : c.toUpper ≠ '#' := fun h => hc ((toUpper_eq_iff rfl).mp h)
      rw [ofWord_of_ne hc, List.map_cons, ofWord_of_ne hc', ← List.map_cons,
        startsNumeral_map_toUpper, signed?_map_toUpper, upper_map_toUpper]
      split
      · cases signed? (c :: cs) with
        | none => exact congrArg Except.error hfold
        | some n => rfl
      · rfl

theorem mapM_ofWord_map_toUpper (ws : List (List Char)) :
    ((ws.map (List.map Char.toUpper)).mapM Token.ofWord).mapError LineError.foldCase =
      (ws.mapM Token.ofWord).mapError LineError.foldCase := by
  induction ws with
  | nil => rfl
  | cons word ws ih =>
    rw [List.map_cons, List.mapM_cons, List.mapM_cons, mapError_bind, mapError_bind,
      ofWord_map_toUpper]
    simp only [mapError_bind, ih]

/-- A line in upper case denotes the same. -/
theorem caseless_map_toUpper (line : List Char) :
    caseless (line.map Char.toUpper) = caseless line := by
  rw [caseless, caseless, ofLine, ofLine, mapError_bind, mapError_bind, lineTokens, lineTokens,
    lineWords_map_toUpper, mapM_ofWord_map_toUpper]

/-! ## Comments, line ends and gaps -/

theorem content_comment (line note : List Char) : content (line ++ ';' :: note) = content line := by
  induction line with
  | nil => rfl
  | cons c line ih =>
    simp only [content, List.cons_append, List.takeWhile_cons] at ih ⊢
    rw [ih]

/-- A comment behind a line adds no words. -/
theorem lineWords_comment (line note : List Char) :
    lineWords (line ++ ';' :: note) = lineWords line := by
  rw [lineWords, content_comment]
  rfl

theorem isComment_append_blank {c : Char} (hc : isBlank c) (cs : List Char) :
    isComment (cs ++ [c]) = isComment cs := by
  rw [isComment, isComment, List.dropWhile_append]
  cases cs.dropWhile isBlank with
  | nil => simp [hc]
  | cons d ds => rfl

/-- White space behind a line adds no words. -/
theorem lineWords_append_blank {c : Char} (hc : isBlank c) (line : List Char) :
    lineWords (line ++ [c]) = lineWords line := by
  by_cases hline : ';' ∈ line
  · obtain ⟨before, note, rfl⟩ := List.append_of_mem hline
    rw [List.append_assoc, List.cons_append, lineWords_comment, lineWords_comment]
  · have hplain : ∀ d ∈ line, d ≠ ';' := fun d hd h => hline (h ▸ hd)
    have hcontent : content [c] = [c] := by
      apply content_of_forall_ne
      intro d hd
      obtain rfl := List.mem_singleton.mp hd
      rintro rfl
      exact absurd hc (by decide)
    have hsep : isSeparator c := by rw [isSeparator, hc, Bool.or_true]
    rw [lineWords, lineWords, content_append hplain, hcontent, content_of_forall_ne hplain,
      isComment_append_blank hc, words_append hsep]
    simp [words]

theorem isComment_append_of_mem {cs : List Char} {c : Char} (hc : c ∈ cs)
    (hblank : isBlank c = false) (ds : List Char) : isComment (cs ++ ds) = isComment cs := by
  have hne : cs.dropWhile isBlank ≠ [] := by
    intro h
    have hall := List.dropWhile_eq_nil_iff.mp h c hc
    rw [hblank] at hall
    cases hall
  obtain ⟨d, rest, hrest⟩ := List.exists_cons_of_ne_nil hne
  rw [isComment, isComment, List.dropWhile_append, hrest]
  rfl

/-- Behind the first word, the words of a line do not depend on the gaps between them. -/
theorem lineWords_gap {line gap : List Char} (hline : ';' ∉ line)
    (hword : ∃ c ∈ line, isSeparator c = false) (hne : gap ≠ []) (hgap : ∀ c ∈ gap, isSeparator c)
    (rest : List Char) :
    lineWords (line ++ (gap ++ rest)) =
      if isComment line then [] else skipIndex (words line ++ words (content rest)) := by
  obtain ⟨c, hc, hsep⟩ := hword
  have hblank : isBlank c = false := by
    rw [isSeparator, Bool.or_eq_false_iff] at hsep
    exact hsep.2
  have hplain : ∀ d ∈ line, d ≠ ';' := fun d hd h => hline (h ▸ hd)
  have hplainGap : ∀ d ∈ gap, d ≠ ';' := by
    rintro d hd rfl
    exact absurd (hgap ';' hd) (by decide)
  obtain ⟨d, gap, rfl⟩ := List.exists_cons_of_ne_nil hne
  obtain ⟨hd, hrest⟩ := List.forall_mem_cons.mp hgap
  rw [lineWords, content_append hplain, content_append hplainGap, isComment_append_of_mem hc hblank,
    List.cons_append, words_append hd, words_gap hrest]

/-! ## Lines of a changed text -/

theorem lines_toUpper (text : String) :
    lines text.toUpper = (lines text).map (List.map Char.toUpper) := by
  rw [lines, String.toUpper, String.toList_map]
  exact pieces_map (toUpper_beq rfl) text.toList

/-- What ends a line adds at most a carriage return to it. -/
theorem EndsLine.lines_eq {rest : String} (h : EndsLine rest) :
    ∃ first after, lines rest = first :: after ∧
      ∀ line, lineWords (line ++ first) = lineWords line := by
  rcases h with rfl | ⟨others, rfl | rfl⟩
  · exact ⟨[], [], rfl, fun line => by rw [List.append_nil]⟩
  · refine ⟨[], lines others, ?_, fun line => by rw [List.append_nil]⟩
    rw [lines, String.toList_append]
    rfl
  · refine ⟨['\r'], lines others, ?_, lineWords_append_blank (by decide)⟩
    rw [lines, String.toList_append]
    rfl

/-- Carriage returns stand at the ends of all lines but the last. -/
theorem lines_withReturns (text : String) :
    ∃ before last, lines text = before ++ [last] ∧
      lines (withReturns text) = before.map (· ++ ['\r']) ++ [last] := by
  rw [lines, lines, withReturns, String.toList_ofList]
  induction text.toList with
  | nil => exact ⟨[], [], rfl, rfl⟩
  | cons c cs ih =>
    obtain ⟨before, last, hcs, hreturns⟩ := ih
    by_cases hc : c = '\n'
    · subst hc
      refine ⟨[] :: before, last, ?_, ?_⟩
      · rw [pieces_cons, hcs]
        rfl
      · rw [List.flatMap_cons, if_pos rfl, List.cons_append, List.cons_append, List.nil_append,
          pieces_cons, pieces_cons, hreturns]
        rfl
    · have hsep : ¬(c == '\n') = true := by rwa [beq_iff_eq]
      rw [List.flatMap_cons, if_neg hc, List.singleton_append, pieces_cons, pieces_cons,
        if_neg hsep, if_neg hsep, hcs, hreturns]
      cases before with
      | nil => exact ⟨[], c :: last, rfl, rfl⟩
      | cons p before => exact ⟨(c :: p) :: before, last, rfl, rfl⟩

/-- What the lines of a text denote, where one line is written in another way. -/
theorem map_caseless_append {front s t : String} {before after : List (List Char)}
    {line first first' : List Char} (hfront : lines front = before ++ [line])
    (hs : lines s = first :: after) (ht : lines t = first' :: after)
    (hwords : lineWords (line ++ first') = lineWords (line ++ first)) :
    (lines (front ++ t)).map caseless = (lines (front ++ s)).map caseless := by
  rw [lines_append_of_eq hfront hs, lines_append_of_eq hfront ht, List.map_append, List.map_append,
    List.map_cons, List.map_cons, caseless_congr hwords]

/-- One change of layout leaves what the lines denote. -/
theorem Relaid.map_caseless {s t : String} (h : Relaid s t) :
    (lines t).map caseless = (lines s).map caseless := by
  cases h with
  | recased hcase =>
    have hupper : ∀ text : String,
        (lines text.toUpper).map caseless = (lines text).map caseless := by
      intro text
      rw [lines_toUpper, List.map_map]
      exact List.map_congr_left fun line _ => caseless_map_toUpper line
    rw [← hupper s, ← hupper t, hcase]
  | returned =>
    obtain ⟨before, last, hs, ht⟩ := lines_withReturns s
    rw [hs, ht, List.map_append, List.map_append, List.map_map]
    congr 1
    apply List.map_congr_left
    intro line _
    exact caseless_congr (lineWords_append_blank (by decide) line)
  | @commented front note rest hnote hends =>
    obtain ⟨before, line, hfront⟩ := exists_lines_eq_append front
    obtain ⟨first, after, hrest, hwords⟩ := hends.lines_eq
    have hcomment : '\n' ∉ (";" ++ note).toList := by simpa using hnote
    apply map_caseless_append hfront hrest (lines_append_of_notMem hcomment hrest)
    rw [String.toList_append, List.append_assoc, hwords]
    exact lineWords_comment line (note.toList ++ first)
  | @respaced front gap gap' rest hbehind hgap hgap' =>
    obtain ⟨before, line, hfront, hline, hword⟩ := hbehind
    obtain ⟨first, after, hrest⟩ := List.exists_cons_of_ne_nil (pieces_ne_nil _ rest.toList)
    have hgapLines : ∀ {g : String}, IsGap g → lines (g ++ rest) = (g.toList ++ first) :: after :=
      fun hg => lines_append_of_notMem (fun h => (hg.2 _ h).2 rfl) hrest
    have hgapWords : ∀ {g : String}, IsGap g → lineWords (line ++ (g.toList ++ first)) =
        if isComment line then [] else skipIndex (words line ++ words (content first)) :=
      fun hg => lineWords_gap hline hword (by simpa using hg.1) (fun c hc => (hg.2 c hc).1) first
    apply map_caseless_append hfront (hgapLines hgap) (hgapLines hgap')
    rw [hgapWords hgap, hgapWords hgap']

end Assembly

namespace Program

open Assembly Text

/-! ## Texts -/

theorem gather_foldCase {α : Type} (f : α → Except LineError (Option Instruction))
    (items : List α) : (gather f items).mapError Error.foldCase =
      gather (fun a => (f a).mapError LineError.foldCase) items := by
  have hkeeps : ∀ n e, Error.foldCase (.mk n e) = .mk n e.foldCase := fun _ _ => rfl
  rw [gather, gather, ← numbered_mapError hkeeps]
  cases numbered 1 f Error.mk items <;> rfl

/-- What a text denotes, letter case in errors apart, is found line by line. -/
theorem assemble_foldCase (text : String) :
    (assemble text).mapError Error.foldCase = gather id ((lines text).map caseless) := by
  rw [assemble_eq_gather, gather_map, gather_foldCase]
  rfl

/-- Any number of changes leaves what the lines denote. -/
theorem map_caseless_of_relaid {s t : String} (h : Relation.ReflTransGen Relaid s t) :
    (lines t).map caseless = (lines s).map caseless := by
  induction h with
  | refl => rfl
  | tail _ hstep ih => rw [hstep.map_caseless, ih]

/-- **Layout.** Layout and letter case do not matter: a text that is laid out anew denotes the same
program, or has the same error in the same line, but for the letter case of a malformed number. -/
theorem assemble_relaid {s t : String} (h : Relation.ReflTransGen Relaid s t) :
    (∀ p, assemble t = .ok p ↔ assemble s = .ok p) ∧
      ∀ n c, assemble s = .error ⟨n, c⟩ →
        ∃ c', assemble t = .error ⟨n, c'⟩ ∧ SameButCase c c' := by
  have hfold : (assemble t).mapError Error.foldCase = (assemble s).mapError Error.foldCase := by
    rw [assemble_foldCase, assemble_foldCase, map_caseless_of_relaid h]
  constructor
  · intro p
    rw [← mapError_eq_ok_iff (g := Error.foldCase), hfold, mapError_eq_ok_iff]
  · intro n c hs
    rw [hs] at hfold
    obtain ⟨⟨n', c'⟩, ht, heq⟩ := mapError_eq_error_iff.mp hfold
    obtain ⟨hn, hc⟩ := Error.mk.inj heq
    obtain rfl : n = n' := hn
    exact ⟨c', ht, sameButCase_of_foldCase hc⟩

/-- All four changes, of a text with a malformed number in its second line. -/
theorem assemble_relaid_malformed :
    assemble "jmp 1\nlit 0xq" = .error ⟨2, .invalidNumber "0xq"⟩ ∧
      ∃ c', assemble "JMP 1;a\r\nLit\t, 0xQ" = .error ⟨2, c'⟩ ∧
        SameButCase (.invalidNumber "0xq") c' := by
  have herror : assemble "jmp 1\nlit 0xq" = .error ⟨2, .invalidNumber "0xq"⟩ := by decide +kernel
  have hcase : Relaid "jmp 1\nlit 0xq" "JMP 1\nLit 0xQ" := by
    apply Relaid.recased
    apply String.toList_inj.mp
    rw [String.toUpper, String.toUpper, String.toList_map, String.toList_map]
    decide +kernel
  have hreturn : Relaid "JMP 1\nLit 0xQ" (withReturns "JMP 1\nLit 0xQ") := .returned _
  have hnote : '\n' ∉ "a".toList := by decide +kernel
  have hends : EndsLine ("\r\n" ++ "Lit 0xQ") := .inr ⟨_, .inr rfl⟩
  have hcomment : Relaid ("JMP 1" ++ ("\r\n" ++ "Lit 0xQ"))
      ("JMP 1" ++ (";" ++ "a" ++ ("\r\n" ++ "Lit 0xQ"))) := .commented hnote hends
  have hbehind : BehindWord "JMP 1;a\r\nLit" :=
    ⟨["JMP 1;a\r".toList], "Lit".toList, by decide +kernel, by decide +kernel, 'L',
      by decide +kernel, by decide⟩
  have hgap : IsGap " " ∧ IsGap "\t, " := by decide +kernel
  have hspace : Relaid ("JMP 1;a\r\nLit" ++ (" " ++ "0xQ"))
      ("JMP 1;a\r\nLit" ++ ("\t, " ++ "0xQ")) := .respaced hbehind hgap.1 hgap.2
  -- Each text is written once as the end of a change and once as the start of the next one.
  have htexts : withReturns "JMP 1\nLit 0xQ" = "JMP 1" ++ ("\r\n" ++ "Lit 0xQ") ∧
      "JMP 1" ++ (";" ++ "a" ++ ("\r\n" ++ "Lit 0xQ")) = "JMP 1;a\r\nLit" ++ (" " ++ "0xQ") ∧
      "JMP 1;a\r\nLit" ++ ("\t, " ++ "0xQ") = "JMP 1;a\r\nLit\t, 0xQ" := by decide +kernel
  obtain ⟨hreturned, hcommented, hspaced⟩ := htexts
  rw [hreturned] at hreturn
  rw [hcommented] at hcomment
  rw [hspaced] at hspace
  have hall := Relation.ReflTransGen.single hcase |>.tail hreturn |>.tail hcomment |>.tail hspace
  exact ⟨herror, (assemble_relaid hall).2 2 _ herror⟩

end Program

end PCode
