import PCode.Proofs.Command.Arguments
import PCode.Proofs.Command.Assembling
import PCode.Proofs.Text.Numerals

/-!
# The groups of the arguments of `run`

The arguments of `run` are read from left to right in groups: an option that asks for the trace,
`--stack-size` with the word behind it whatever that word is, or a path. Which arguments are
accepted, and with which options, is said here by the groups alone, without a reader.

* `Group`: the groups that the grammar has. Each carries what makes it one.
* `Breaks`: what is left of the arguments starts with a group that the grammar does not have, or with
  a second path. Each such start has its error.
* `exists_groups`: all arguments are groups, up to their end or to a group that breaks the grammar.
* `parse_of_groups`, `parse_of_breaks`: what is read in both cases.
* `parse_reads_groups`: the whole.
-/

namespace PCode.RunOptions

open Text (IsUnsigned)

/-! ## The grammar -/

/-- What the word behind `--stack-size` is read as. -/
inductive ReadsSize (value : String) : Except Error Nat → Prop
  | invalid (hvalue : ∀ n, IsUnsigned value.toList n → UInt64.size ≤ n) :
      ReadsSize value (.error (.invalidSize value))
  | tooLarge {n : Nat} (hvalue : IsUnsigned value.toList n) (hfits : n < UInt64.size)
      (hlarge : 0x1000000 < n) : ReadsSize value (.error (.sizeTooLarge n))
  | fits {n : Nat} (hvalue : IsUnsigned value.toList n) (hmax : n ≤ 0x1000000) :
      ReadsSize value (.ok n)

/-- Arguments that belong together. -/
inductive Group where
  /-- Asks for the trace. -/
  | debug (flag : String) (hflag : flag = "--debug" ∨ flag = "-d")
  /-- Asks for a size of the stack. -/
  | size (value : String) (n : Nat) (hvalue : ReadsSize value (.ok n))
  /-- The path of the program. -/
  | input (path : String) (hpath : path.toList.head? ≠ some '-')

namespace Group

/-- The arguments of the group. -/
def words : Group → List String
  | debug flag _ => [flag]
  | size value _ _ => ["--stack-size", value]
  | input path _ => [path]

/-- The group asks for the trace. -/
def isDebug : Group → Bool
  | debug .. => true
  | _ => false

/-- The size that the group asks for. -/
def size? : Group → Option Nat
  | size _ n _ => some n
  | _ => none

/-- The path that the group is. -/
def input? : Group → Option String
  | input path _ => some path
  | _ => none

end Group

/-- The paths among the groups. -/
def inputs (groups : List Group) : List String := groups.filterMap Group.input?

/-- The sizes that the groups ask for. -/
def sizes (groups : List Group) : List Nat := groups.filterMap Group.size?

/-- What is left of the arguments, after groups with the given paths, starts with a group that
breaks the grammar. -/
inductive Breaks (paths : List String) : List String → Error → Prop
  | missingSize : Breaks paths ["--stack-size"] .missingSize
  | wrongSize {value : String} {e : Error} (rest : List String)
      (hvalue : ReadsSize value (.error e)) :
      Breaks paths ("--stack-size" :: value :: rest) e
  | unknownOption {option : String} (rest : List String) (hdash : option.toList.head? = some '-')
      (hoption : option ∉ ["--debug", "-d", "--stack-size"]) :
      Breaks paths (option :: rest) (.unknownOption option)
  | secondInput {path : String} (rest : List String) (hpath : path.toList.head? ≠ some '-')
      (hsecond : paths ≠ []) : Breaks paths (path :: rest) (.unexpectedArgument path)

/-! ## Sizes -/

theorem filter_unsigned?_eq_some_iff {value : String} {n : Nat} :
    (Text.unsigned? value.toList).filter (· < UInt64.size) = some n ↔
      IsUnsigned value.toList n ∧ n < UInt64.size := by
  rw [Option.filter_eq_some_iff, Text.unsigned?_eq_some_iff, decide_eq_true_eq]

theorem filter_unsigned?_eq_none_iff {value : String} :
    (Text.unsigned? value.toList).filter (· < UInt64.size) = none ↔
      ∀ n, IsUnsigned value.toList n → UInt64.size ≤ n := by
  rw [Option.filter_eq_none_iff]
  simp only [Text.unsigned?_eq_some_iff, decide_eq_true_eq, Nat.not_lt]

theorem size_eq_iff {value : String} {result : Except Error Nat} :
    size value = result ↔ ReadsSize value result := by
  constructor
  · rintro rfl
    unfold size
    split
    next hnone => exact .invalid (filter_unsigned?_eq_none_iff.mp hnone)
    next n hsome =>
      obtain ⟨hvalue, hfits⟩ := filter_unsigned?_eq_some_iff.mp hsome
      split
      next hmax => exact .fits hvalue hmax
      next hlarge => exact .tooLarge hvalue hfits (Nat.not_le.mp hlarge)
  · intro h
    unfold size
    cases h with
    | invalid hvalue => rw [filter_unsigned?_eq_none_iff.mpr hvalue]
    | tooLarge hvalue hfits hlarge =>
      rw [filter_unsigned?_eq_some_iff.mpr ⟨hvalue, hfits⟩]
      exact if_neg (Nat.not_le.mpr hlarge)
    | fits hvalue hmax =>
      have hfits : _ < UInt64.size := Nat.lt_of_le_of_lt hmax (by decide)
      rw [filter_unsigned?_eq_some_iff.mpr ⟨hvalue, hfits⟩]
      exact if_pos hmax

/-! ## Groups -/

variable {draft : Draft} {groups : List Group} {rest : List String}

/-- The draft after one more group. -/
def Draft.take (draft : Draft) : Group → Draft
  | .debug .. => { draft with debug := true }
  | .size _ n _ => { draft with stackSize := n }
  | .input path _ => { draft with input := some path }

theorem inputs_cons (g : Group) (groups : List Group) :
    inputs (g :: groups) = g.input?.toList ++ inputs groups := by
  cases g <;> rfl

theorem sizes_cons (g : Group) (groups : List Group) :
    sizes (g :: groups) = g.size?.toList ++ sizes groups := by
  cases g <;> rfl

theorem parseFrom_of_size (draft : Draft) (value : String) (rest : List String) :
    parseFrom draft ("--stack-size" :: value :: rest) =
      match size value with
      | .ok n => parseFrom { draft with stackSize := n } rest
      | .error e => .error e := by
  rw [parseFrom.eq_def]
  rfl

/-- A group is read into the draft. A path has to be the first. -/
theorem parseFrom_words {g : Group} (hfirst : (draft.input.toList ++ g.input?.toList).length ≤ 1)
    (rest : List String) : parseFrom draft (g.words ++ rest) = parseFrom (draft.take g) rest := by
  cases g with
  | debug flag hflag => exact parseFrom_of_debug hflag rest
  | size value n hvalue =>
    show parseFrom draft ("--stack-size" :: value :: rest) = _
    rw [parseFrom_of_size, size_eq_iff.mpr hvalue]
    rfl
  | input path hpath =>
    have hnone : draft.input = none := by
      cases hinput : draft.input with
      | none => rfl
      | some first => simp [hinput, Group.input?] at hfirst
    show parseFrom draft (path :: rest) = _
    rw [parseFrom_of_path draft hpath, hnone]
    rfl

theorem input_take {g : Group} (hfirst : (draft.input.toList ++ g.input?.toList).length ≤ 1) :
    (draft.take g).input.toList = draft.input.toList ++ g.input?.toList := by
  cases g with
  | debug | size => exact (List.append_nil _).symm
  | input path hpath =>
    cases hinput : draft.input with
    | none => rfl
    | some first => simp [hinput, Group.input?] at hfirst

/-- Groups are read into the draft one after another, as long as they bring one path at most. -/
theorem parseFrom_groups (h : (draft.input.toList ++ inputs groups).length ≤ 1)
    (rest : List String) :
    parseFrom draft (groups.flatMap Group.words ++ rest) =
        parseFrom (groups.foldl Draft.take draft) rest ∧
      (groups.foldl Draft.take draft).input.toList = draft.input.toList ++ inputs groups := by
  induction groups generalizing draft with
  | nil => exact ⟨rfl, (List.append_nil _).symm⟩
  | cons g groups ih =>
    rw [inputs_cons, ← List.append_assoc] at h
    have hfirst : (draft.input.toList ++ g.input?.toList).length ≤ 1 := by
      rw [List.length_append] at h
      omega
    rw [← input_take hfirst] at h
    obtain ⟨hread, hinput⟩ := ih h
    rw [List.flatMap_cons, List.append_assoc, parseFrom_words hfirst, List.foldl_cons]
    exact ⟨hread, by rw [hinput, input_take hfirst, inputs_cons, List.append_assoc]⟩

theorem debug_foldl (groups : List Group) (draft : Draft) :
    (groups.foldl Draft.take draft).debug = (draft.debug || groups.any Group.isDebug) := by
  induction groups generalizing draft with
  | nil => exact (Bool.or_false _).symm
  | cons g groups ih =>
    rw [List.foldl_cons, ih, List.any_cons, ← Bool.or_assoc]
    cases g <;> simp [Draft.take, Group.isDebug]

/-- The last size counts. -/
theorem stackSize_foldl (groups : List Group) (draft : Draft) :
    (groups.foldl Draft.take draft).stackSize =
      (sizes groups).getLast?.getD draft.stackSize := by
  induction groups generalizing draft with
  | nil => rfl
  | cons g groups ih =>
    rw [List.foldl_cons, ih, sizes_cons]
    cases g with
    | debug | input => rfl
    | size value n hvalue =>
      show (sizes groups).getLast?.getD n = ((n :: sizes groups).getLast?).getD draft.stackSize
      rw [List.getLast?_cons]
      rfl

/-! ## Arguments -/

theorem parse_groups (h : (inputs groups).length ≤ 1) (rest : List String) :
    parse (groups.flatMap Group.words ++ rest) =
        parseFrom (groups.foldl Draft.take {}) rest ∧
      (groups.foldl Draft.take {}).input.toList = inputs groups := by
  have hstart : (({} : Draft).input.toList ++ inputs groups).length ≤ 1 := h
  exact parseFrom_groups hstart rest

theorem parse_of_groups {path : String} (h : inputs groups = [path]) :
    parse (groups.flatMap Group.words) =
      .ok ⟨path, groups.any Group.isDebug, (sizes groups).getLast?.getD 2048⟩ := by
  obtain ⟨hread, hinput⟩ := parse_groups (by rw [h]; exact Nat.le_refl 1) []
  have hpath : (groups.foldl Draft.take {}).input = some path := by
    rw [← Option.toList_eq_singleton_iff, hinput, h]
  rw [← List.append_nil (groups.flatMap _), hread, parseFrom, hpath]
  simp only [debug_foldl, stackSize_foldl]
  rfl

theorem parse_of_no_input (h : inputs groups = []) :
    parse (groups.flatMap Group.words) = .error .missingInput := by
  obtain ⟨hread, hinput⟩ := parse_groups (by rw [h]; exact Nat.zero_le 1) []
  have hnone : (groups.foldl Draft.take {}).input = none := by
    rw [← Option.toList_eq_nil_iff, hinput, h]
  rw [← List.append_nil (groups.flatMap _), hread, parseFrom, hnone]

theorem parseFrom_of_breaks {e : Error} (h : Breaks draft.input.toList rest e) :
    parseFrom draft rest = .error e := by
  cases h with
  | missingSize => rfl
  | wrongSize rest hvalue =>
    rw [parseFrom_of_size, size_eq_iff.mpr hvalue]
  | @unknownOption option rest hdash hoption =>
    simp only [List.mem_cons, List.not_mem_nil, or_false, not_or] at hoption
    obtain ⟨hlong, hshort, hsize⟩ := hoption
    rw [parseFrom_of_word draft (not_or.mpr ⟨hlong, hshort⟩) hsize, if_pos hdash]
  | secondInput rest hpath hsecond =>
    have hsome : draft.input.isSome := by
      rw [Option.isSome_iff_ne_none]
      exact fun hnone => hsecond (Option.toList_eq_nil_iff.mpr hnone)
    rw [parseFrom_of_path draft hpath, if_pos hsome]

theorem parse_of_breaks {e : Error} (h : (inputs groups).length ≤ 1)
    (hbreaks : Breaks (inputs groups) rest e) :
    parse (groups.flatMap Group.words ++ rest) = .error e := by
  obtain ⟨hread, hinput⟩ := parse_groups h rest
  rw [← hinput] at hbreaks
  rw [hread, parseFrom_of_breaks hbreaks]

/-- The arguments, behind groups with the given paths, are groups with one path at most, up to their
end or to a group that breaks the grammar. -/
def Splits (paths args : List String) : Prop :=
  ∃ groups rest, args = groups.flatMap Group.words ++ rest ∧
    (paths ++ inputs groups).length ≤ 1 ∧
    (rest = [] ∨ ∃ e, Breaks (paths ++ inputs groups) rest e)

theorem Splits.cons {paths args : List String} (g : Group)
    (h : Splits (paths ++ g.input?.toList) args) : Splits paths (g.words ++ args) := by
  obtain ⟨groups, rest, rfl, hlength, hrest⟩ := h
  rw [List.append_assoc, ← inputs_cons] at hlength hrest
  exact ⟨g :: groups, rest, by rw [List.flatMap_cons, List.append_assoc], hlength, hrest⟩

theorem Splits.of_rest {paths rest : List String} (hlength : paths.length ≤ 1)
    (h : rest = [] ∨ ∃ e, Breaks paths rest e) : Splits paths rest := by
  have hnone : paths ++ inputs [] = paths := List.append_nil paths
  exact ⟨[], rest, rfl, by rw [hnone]; exact hlength, by rw [hnone]; exact h⟩

theorem Splits.of_breaks {paths rest : List String} {e : Error} (hlength : paths.length ≤ 1)
    (h : Breaks paths rest e) : Splits paths rest :=
  .of_rest hlength (.inr ⟨e, h⟩)

/-- Reading follows the groups, whatever the draft is. -/
theorem splits_from (draft : Draft) (args : List String) : Splits draft.input.toList args := by
  have hlength (draft : Draft) : draft.input.toList.length ≤ 1 := by
    cases draft.input <;> simp
  fun_induction parseFrom draft args with
  | case1 draft | case2 draft => exact .of_rest (hlength draft) (.inl rfl)
  | case3 draft flag rest hflag ih =>
    refine .cons (.debug flag hflag) ?_
    show Splits (draft.input.toList ++ []) rest
    rw [List.append_nil]
    exact ih
  | case4 draft => exact .of_breaks (hlength draft) .missingSize
  | case5 draft value rest n hsize _ ih =>
    refine .cons (.size value n (size_eq_iff.mp hsize)) ?_
    show Splits (draft.input.toList ++ []) rest
    rw [List.append_nil]
    exact ih
  | case6 draft value rest e hsize =>
    exact .of_breaks (hlength draft) (.wrongSize rest (size_eq_iff.mp hsize))
  | case7 draft option rest hdebug hsize hdash =>
    refine .of_breaks (hlength draft) (.unknownOption rest hdash ?_)
    simp only [List.mem_cons, List.not_mem_nil, or_false, not_or]
    exact ⟨(not_or.mp hdebug).1, (not_or.mp hdebug).2, hsize⟩
  | case8 draft path rest _ _ hpath hsome =>
    refine .of_breaks (hlength draft) (.secondInput rest hpath fun hnil => ?_)
    rw [Option.toList_eq_nil_iff.mp hnil] at hsome
    cases hsome
  | case9 draft path rest _ _ hpath hnone ih =>
    refine .cons (.input path hpath) ?_
    rw [Option.not_isSome_iff_eq_none.mp hnone]
    exact ih

/-- **Groups.** All arguments are groups with one path at most, up to their end or to a group that
breaks the grammar. -/
theorem exists_groups (args : List String) :
    ∃ groups rest, args = groups.flatMap Group.words ++ rest ∧ (inputs groups).length ≤ 1 ∧
      (rest = [] ∨ ∃ e, Breaks (inputs groups) rest e) :=
  splits_from {} args

theorem eq_nil_or_singleton {paths : List String} (h : paths.length ≤ 1) :
    paths = [] ∨ ∃ path, paths = [path] := by
  cases paths with
  | nil => exact .inl rfl
  | cons path paths =>
    have hnil : paths = [] := by
      rw [List.length_cons] at h
      exact List.length_eq_zero_iff.mp (by omega)
    exact .inr ⟨path, by rw [hnil]⟩

theorem parse_eq_ok_iff {args : List String} {options : RunOptions} :
    parse args = .ok options ↔ ∃ groups, args = groups.flatMap Group.words ∧
      inputs groups = [options.input] ∧ options.debug = groups.any Group.isDebug ∧
      options.stackSize = (sizes groups).getLast?.getD 2048 := by
  constructor
  · intro h
    obtain ⟨groups, rest, rfl, hlength, rfl | ⟨e, hbreaks⟩⟩ := exists_groups args
    · rw [List.append_nil] at h ⊢
      rcases eq_nil_or_singleton hlength with hinputs | ⟨path, hinputs⟩
      · cases (parse_of_no_input hinputs).symm.trans h
      · cases (parse_of_groups hinputs).symm.trans h
        exact ⟨groups, rfl, hinputs, rfl, rfl⟩
    · cases (parse_of_breaks hlength hbreaks).symm.trans h
  · rintro ⟨groups, rfl, hinputs, hdebug, hsize⟩
    rw [parse_of_groups hinputs, ← hdebug, ← hsize]

theorem parse_eq_error_iff {args : List String} {e : Error} :
    parse args = .error e ↔ ∃ groups rest, args = groups.flatMap Group.words ++ rest ∧
      (inputs groups).length ≤ 1 ∧
      (Breaks (inputs groups) rest e ∨ rest = [] ∧ inputs groups = [] ∧ e = .missingInput) := by
  constructor
  · intro h
    obtain ⟨groups, rest, rfl, hlength, rfl | ⟨e', hbreaks⟩⟩ := exists_groups args
    · rw [List.append_nil] at h
      rcases eq_nil_or_singleton hlength with hinputs | ⟨path, hinputs⟩
      · cases (parse_of_no_input hinputs).symm.trans h
        exact ⟨groups, [], rfl, hlength, .inr ⟨rfl, hinputs, rfl⟩⟩
      · cases (parse_of_groups hinputs).symm.trans h
    · cases (parse_of_breaks hlength hbreaks).symm.trans h
      exact ⟨groups, rest, rfl, hlength, .inl hbreaks⟩
  · rintro ⟨groups, rest, rfl, hlength, hbreaks | ⟨rfl, hinputs, rfl⟩⟩
    · exact parse_of_breaks hlength hbreaks
    · rw [List.append_nil, parse_of_no_input hinputs]

/-! ## Order -/

theorem sizes_filter (groups : List Group) :
    sizes (groups.filter (·.size?.isSome)) = sizes groups := by
  unfold sizes
  rw [List.filterMap_filter]
  congr
  funext g
  cases g <;> rfl

/-- Groups with one path may come in any order, as long as the sizes keep theirs. -/
theorem parse_of_perm {groups groups' : List Group} (h : (inputs groups).length = 1)
    (hperm : groups.Perm groups')
    (hsizes : groups'.filter (·.size?.isSome) = groups.filter (·.size?.isSome)) :
    parse (groups'.flatMap Group.words) = parse (groups.flatMap Group.words) := by
  obtain ⟨path, hpath⟩ := List.length_eq_one_iff.mp h
  have hpath' : inputs groups' = [path] := by
    rw [← List.perm_singleton, ← hpath]
    exact (hperm.filterMap Group.input?).symm
  have hlast : sizes groups' = sizes groups := by
    rw [← sizes_filter, hsizes, sizes_filter]
  rw [parse_of_groups hpath, parse_of_groups hpath', hlast, hperm.any_eq]

/-! ## Messages -/

/-- The message that there is no program stands for no other error. -/
theorem Error.message_eq_iff {e : Error} :
    e.message = "run requires an input file" ↔ e = .missingInput := by
  have hno {front : String} {letter : Char} (hfront : StartsWith front letter) (hne : letter ≠ 'r')
      (rest : String) : front ++ rest ≠ "run requires an input file" := by
    intro heq
    have hletter : some letter = some 'r' := by
      rw [← hfront.append rest, heq]
      rfl
    exact hne (Option.some.inj hletter)
  constructor
  · intro h
    cases e with
    | missingInput => rfl
    | missingSize => exact absurd h (by decide)
    | invalidSize value =>
      have hfront : StartsWith "invalid stack size '" 'i' := rfl
      exact absurd h (hno (hfront.append _) (by decide) _)
    | sizeTooLarge size =>
      have hfront : StartsWith "stack size " 's' := rfl
      exact absurd h (hno ((hfront.append _).append _) (by decide) _)
    | unknownOption option =>
      have hfront : StartsWith "unknown option '" 'u' := rfl
      exact absurd h (hno (hfront.append _) (by decide) _)
    | unexpectedArgument argument =>
      have hfront : StartsWith "unexpected argument '" 'u' := rfl
      exact absurd h (hno (hfront.append _) (by decide) _)
  · rintro rfl
    rfl

/-! ## The whole -/

/-- **The arguments of `run`.** They are accepted just if they are groups of which exactly one is a
path. The options are then this path, whether a group asks for the trace, and the last of the sizes,
or 2048. Such groups may come in any order in which the sizes keep theirs. Any other arguments have
the error of the first group that breaks the grammar; the groups before it do not, and have one path
at most. If there is no such group the error is that there is no path, and only then its message is
the one for this. -/
theorem parse_reads_groups (args : List String) :
    (∀ options, parse args = .ok options ↔
      ∃ groups, args = groups.flatMap Group.words ∧ inputs groups = [options.input] ∧
        options.debug = groups.any Group.isDebug ∧
        options.stackSize = (sizes groups).getLast?.getD 2048) ∧
    (∀ groups groups' : List Group, args = groups.flatMap Group.words →
      (inputs groups).length = 1 → groups.Perm groups' →
      groups'.filter (·.size?.isSome) = groups.filter (·.size?.isSome) →
      parse (groups'.flatMap Group.words) = parse args) ∧
    (∀ e, parse args = .error e ↔
      ∃ groups rest, args = groups.flatMap Group.words ++ rest ∧ (inputs groups).length ≤ 1 ∧
        (Breaks (inputs groups) rest e ∨
          rest = [] ∧ inputs groups = [] ∧ e = .missingInput)) ∧
    ((∃ e, parse args = .error e ∧ e.message = "run requires an input file") ↔
      ∃ groups, args = groups.flatMap Group.words ∧ inputs groups = []) := by
  refine ⟨fun _ => parse_eq_ok_iff, ?_, fun _ => parse_eq_error_iff, ?_⟩
  · rintro groups groups' rfl hone hperm hsizes
    exact parse_of_perm hone hperm hsizes
  · simp only [Error.message_eq_iff, exists_eq_right]
    constructor
    · intro h
      obtain ⟨groups, rest, rfl, -, hbreaks | ⟨rfl, hnil, -⟩⟩ := parse_eq_error_iff.mp h
      · cases hbreaks with
        | wrongSize rest hvalue => cases hvalue
      · exact ⟨groups, List.append_nil _, hnil⟩
    · rintro ⟨groups, rfl, hnil⟩
      exact parse_of_no_input hnil

/-- Two sizes and an option in front of the path and behind it, an option that `--stack-size` takes
for its value, and an empty path behind another. -/
theorem parse_reads_groups_examples :
    let args := ["--stack-size", "+0064", "-d", "--stack-size", "100", "p"]
    parse args = .ok ⟨"p", true, 100⟩ ∧
      parse ["p", "--stack-size", "+0064", "-d", "--stack-size", "100"] = parse args ∧
      parse ["p", "--stack-size", "--debug", "-x"] = .error (.invalidSize "--debug") ∧
      parse ["p", "-d", "", "-x"] = .error (.unexpectedArgument "") ∧
      ∃ e, parse ["-d"] = .error e ∧ e.message = "run requires an input file" := by
  intro args
  have hsmall : ReadsSize "+0064" (.ok 64) := size_eq_iff.mp rfl
  have hlarge : ReadsSize "100" (.ok 100) := size_eq_iff.mp rfl
  have hwrong : ReadsSize "--debug" (.error (.invalidSize "--debug")) := size_eq_iff.mp rfl
  let options : List Group :=
    [.size "+0064" 64 hsmall, .debug "-d" (.inr rfl), .size "100" 100 hlarge]
  let path : Group := .input "p" (by decide)
  have hargs : args = (options ++ [path]).flatMap Group.words := rfl
  obtain ⟨hok, horder, -, -⟩ := parse_reads_groups args
  obtain ⟨-, -, herror, -⟩ := parse_reads_groups ["p", "--stack-size", "--debug", "-x"]
  obtain ⟨-, -, herror', -⟩ := parse_reads_groups ["p", "-d", "", "-x"]
  obtain ⟨-, -, -, hmessage⟩ := parse_reads_groups ["-d"]
  refine ⟨(hok _).mpr ⟨options ++ [path], hargs, rfl, rfl, rfl⟩,
    horder (options ++ [path]) (path :: options) hargs rfl List.perm_append_comm rfl,
    (herror _).mpr ⟨[path], _, rfl, Nat.le_refl 1, .inl (.wrongSize ["-x"] hwrong)⟩,
    (herror' _).mpr ⟨[path, .debug "-d" (.inr rfl)], _, rfl, Nat.le_refl 1,
      .inl (.secondInput ["-x"] (by decide) (List.cons_ne_nil _ _))⟩,
    hmessage.mpr ⟨[.debug "-d" (.inr rfl)], rfl, rfl⟩⟩

end PCode.RunOptions
