import Cdfs.Basis.FileSystem

/-! # Names of stored files

The helpers of `file/CryptoUtils.h` that turn contents and client file names into
names on disk. The MD5 function itself is a parameter.
-/

namespace Cdfs

open Basis

/-- The sixteen bytes of an MD5. -/
abbrev Digest := { value : Bytes // value.length = 16 }

/-- The lower-case hexadecimal digit of a number below sixteen. -/
def hexDigit (number : Nat) : UInt8 :=
  if number < 10 then UInt8.ofNat (48 + number) else UInt8.ofNat (87 + number)

/-- Two digits for a byte. -/
def hexByte (byte : UInt8) : Bytes := [hexDigit (byte.toNat / 16), hexDigit (byte.toNat % 16)]

/-- `md5`: the digest in hexadecimal. -/
def md5Hex (digest : Bytes → Digest) (data : Bytes) : Bytes := (digest data).val.flatMap hexByte

/-- White space of the C locale. -/
def isSpace (byte : UInt8) : Bool := byte == 32 || (9 ≤ byte && byte ≤ 13)

/-- `tolower` in the C locale. -/
def toLower (byte : UInt8) : UInt8 := if 65 ≤ byte ∧ byte ≤ 90 then byte + 32 else byte

/-- The characters taken out of file names. -/
def isSpecialChar (byte : UInt8) : Bool :=
  (bytes "/\\:*?\"<>|()[]\x7b\x7d,;'#@%&$^~=+-!").contains byte || isSpace byte

/-- Delete every run of two or more dots; the argument counts the dots just read. -/
def dropDotRuns : Nat → Bytes → Bytes
  | dots, [] => if dots = 1 then [46] else []
  | dots, byte :: rest =>
      if byte = 46 then dropDotRuns (dots + 1) rest
      else (if dots = 1 then [46] else []) ++ byte :: dropDotRuns 0 rest

/-- `trim_filename_special_char`. -/
def trimFilenameSpecialChar (filename : Bytes) : Bytes :=
  let name := dropDotRuns 0 (filename.filter fun byte => !isSpecialChar byte)
  let name := if name.head? = some 46 then name.drop 1 else name
  if name.getLast? = some 46 then name.dropLast else name

/-- `check_file_ext`: no list allows everything. -/
def checkFileExt (filename : Bytes) (allowed : List Bytes) : Bool :=
  allowed.isEmpty || allowed.contains ((FsPath.extension filename).map toLower)

/-- `md5_to_rel_path`: two directory levels from the first four characters. -/
def md5ToRelPath (md5 : Bytes) : Except Exn Bytes :=
  if md5.length < 4 then .error (.other (bytes "[FileStore] MD5 length too short: " ++ md5))
  else .ok (FsPath.join (FsPath.join (FsPath.join [] (md5.take 2)) ((md5.drop 2).take 2)) md5)

/-- `std::stoi`: none when it throws. -/
def stoi (text : Bytes) : Option Int :=
  let trimmed := text.dropWhile isSpace
  let negative := trimmed.head? = some 45
  let unsigned := if trimmed.head? = some 45 ∨ trimmed.head? = some 43 then trimmed.drop 1 else trimmed
  let digits := unsigned.takeWhile isDigit
  let value : Int := if negative then -(decimalValue digits : Int) else decimalValue digits
  if digits = [] then none
  else if -2 ^ 31 ≤ value ∧ value < 2 ^ 31 then some value
  else none

/-- `std::stoul`: none when it throws. A sign is read as one, the number modulo 2^64. -/
def stoul (text : Bytes) : Option UInt64 :=
  let trimmed := text.dropWhile isSpace
  let negative := trimmed.head? = some 45
  let unsigned := if trimmed.head? = some 45 ∨ trimmed.head? = some 43 then trimmed.drop 1 else trimmed
  let digits := unsigned.takeWhile isDigit
  if digits = [] then none
  else if decimalValue digits < 2 ^ 64 then
    some (if negative then -UInt64.ofNat (decimalValue digits)
      else UInt64.ofNat (decimalValue digits))
  else none

/-- An MD5 is printed in 32 digits. -/
theorem length_md5Hex (digest : Bytes → Digest) (data : Bytes) : (md5Hex digest data).length = 32 := by
  have double (value : Bytes) : (value.flatMap hexByte).length = 2 * value.length := by
    induction value with
    | nil => rfl
    | cons byte rest ih =>
        rw [List.flatMap_cons, List.length_append, ih, List.length_cons]
        change 2 + 2 * rest.length = 2 * (rest.length + 1)
        omega
  rw [md5Hex, double, (digest data).property]

theorem isHexDigit_hexDigit {number : Nat} (small : number < 16) :
    isHexDigit (hexDigit number) = true := by
  interval_cases number <;> decide

/-- The digits of an MD5 are hexadecimal. -/
theorem isHexDigit_of_mem_md5Hex {digest : Bytes → Digest} {data : Bytes} {byte : UInt8}
    (member : byte ∈ md5Hex digest data) : isHexDigit byte = true := by
  obtain ⟨value, _, digit⟩ := List.mem_flatMap.mp member
  have bound := value.toNat_lt
  rcases List.mem_cons.mp digit with rfl | digit
  · exact isHexDigit_hexDigit (by omega)
  · rw [List.mem_singleton.mp digit]
    exact isHexDigit_hexDigit (by omega)

/-- A text of hexadecimal digits names an entry. -/
theorem isName_of_hex {name : Bytes} (nonempty : name ≠ [])
    (hex : ∀ byte ∈ name, isHexDigit byte = true) : FsPath.IsName name := by
  have absent (other : UInt8) (notDigit : isHexDigit other = false) : other ∉ name :=
    fun member => by
      rw [hex other member] at notDigit
      cases notDigit
  have noDot : (46 : UInt8) ∉ name := absent 46 (by decide)
  refine ⟨nonempty, ?_, ?_, absent 47 (by decide), absent 0 (by decide)⟩
  · exact fun same => noDot (same ▸ List.mem_cons_self)
  · exact fun same => noDot (same ▸ List.mem_cons_self)

/-- An MD5 is a name. -/
theorem isName_md5Hex (digest : Bytes → Digest) (data : Bytes) : FsPath.IsName (md5Hex digest data) := by
  refine isName_of_hex ?_ fun byte => isHexDigit_of_mem_md5Hex
  rw [← List.length_pos_iff, length_md5Hex]
  decide

/-- Different digests are written differently. -/
theorem hexByte_injective {first second : UInt8} (same : hexByte first = hexByte second) :
    first = second := by
  have digits {left right : Nat} (smallLeft : left < 16) (smallRight : right < 16)
      (equal : hexDigit left = hexDigit right) : left = right := by
    interval_cases left <;> interval_cases right <;> first | rfl | exact absurd equal (by decide)
  have firstBound := first.toNat_lt
  have secondBound := second.toNat_lt
  have high := digits (by omega) (by omega) (List.cons.inj same).1
  have low := digits (by omega) (by omega) (List.cons.inj (List.cons.inj same).2).1
  apply UInt8.toNat_inj.mp
  omega

/-- Different digests are printed differently. -/
theorem md5Hex_injective {digest : Bytes → Digest} {first second : Bytes}
    (same : md5Hex digest first = md5Hex digest second) : digest first = digest second := by
  have flat {left right : Bytes} (equal : left.flatMap hexByte = right.flatMap hexByte) :
      left = right := by
    induction left generalizing right with
    | nil =>
        cases right with
        | nil => rfl
        | cons byte rest => cases equal
    | cons byte rest ih =>
        cases right with
        | nil => cases equal
        | cons other more =>
            rw [List.flatMap_cons, List.flatMap_cons] at equal
            obtain ⟨start, later⟩ := List.append_inj equal rfl
            rw [hexByte_injective start, ih later]
  exact Subtype.ext (flat same)

/-- The path of an MD5 without slashes. -/
theorem md5ToRelPath_of_plain {md5 : Bytes} (long : 4 ≤ md5.length) (plain : (47 : UInt8) ∉ md5) :
    md5ToRelPath md5 = .ok (md5.take 2 ++ 47 :: ((md5.drop 2).take 2 ++ 47 :: md5)) := by
  have plainFirst : (47 : UInt8) ∉ md5.take 2 := fun slash => plain (List.mem_of_mem_take slash)
  have plainSecond : (47 : UInt8) ∉ (md5.drop 2).take 2 := fun slash =>
    plain (List.mem_of_mem_drop (List.mem_of_mem_take slash))
  have someFirst : md5.take 2 ≠ [] := by
    rw [← List.length_pos_iff, List.length_take]
    omega
  have someSecond : (md5.drop 2).take 2 ≠ [] := by
    rw [← List.length_pos_iff, List.length_take, List.length_drop]
    omega
  have first : FsPath.join [] (md5.take 2) = md5.take 2 := by
    rw [FsPath.join, FsPath.isAbsolute_of_not_mem plainFirst]
    rfl
  have second : FsPath.join (md5.take 2) ((md5.drop 2).take 2) =
      md5.take 2 ++ 47 :: (md5.drop 2).take 2 :=
    FsPath.join_named (FsPath.hasFilename_append someFirst plainFirst [])
      (FsPath.isAbsolute_of_not_mem plainSecond)
  have third : FsPath.hasFilename (md5.take 2 ++ 47 :: (md5.drop 2).take 2) = true := by
    rw [List.append_cons]
    exact FsPath.hasFilename_append someSecond plainSecond _
  rw [md5ToRelPath, if_neg (by omega), first, second,
    FsPath.join_named third (FsPath.isAbsolute_of_not_mem plain), List.append_assoc, List.cons_append]

/-- A digit is neither a space nor a sign. -/
theorem plain_of_isDigit {byte : UInt8} (digit : isDigit byte = true) :
    isSpace byte = false ∧ byte ≠ 45 ∧ byte ≠ 43 := by
  have all : ∀ byte : UInt8, isDigit byte = true → isSpace byte = false ∧ byte ≠ 45 ∧ byte ≠ 43 :=
    forall_byte (by decide +kernel)
  exact all byte digit

/-- In the digits of a number there is nothing to skip. -/
theorem decimal_spec (number : Nat) :
    (decimal number).dropWhile isSpace = decimal number ∧
      (decimal number).head? ≠ some 45 ∧ (decimal number).head? ≠ some 43 ∧
      (decimal number).takeWhile isDigit = decimal number := by
  have digits : ∀ byte ∈ decimal number, isDigit byte = true := fun _ => isDigit_of_mem_decimal
  obtain ⟨first, rest, text⟩ := List.exists_cons_of_ne_nil (decimal_ne_nil number)
  obtain ⟨space, minus, plus⟩ := plain_of_isDigit (digits first (text ▸ List.mem_cons_self ..))
  have head : (decimal number).head? = some first := by rw [text, List.head?_cons]
  refine ⟨?_, ?_, ?_, List.takeWhile_eq_self_iff.mpr digits⟩
  · rw [text, List.dropWhile_cons_of_neg (by rw [space]; exact Bool.false_ne_true)]
  · rwa [head, ne_eq, Option.some.injEq]
  · rwa [head, ne_eq, Option.some.injEq]

/-- A number is read back from its digits. -/
theorem stoi_decimal {number : Nat} (small : number < 2 ^ 31) :
    stoi (decimal number) = some (number : Int) := by
  obtain ⟨kept, minus, plus, taken⟩ := decimal_spec number
  have bound : (-2 ^ 31 : Int) ≤ (number : Int) ∧ (number : Int) < 2 ^ 31 := by omega
  unfold stoi
  simp only [kept, if_neg (not_or.mpr ⟨minus, plus⟩), taken, decimalValue_decimal, if_neg minus,
    if_neg (decimal_ne_nil number), if_pos bound]

/-- A number that does not fit is not read. -/
theorem stoi_decimal_of_large {number : Nat} (large : 2 ^ 31 ≤ number) :
    stoi (decimal number) = none := by
  obtain ⟨kept, minus, plus, taken⟩ := decimal_spec number
  have bound : ¬ ((-2 ^ 31 : Int) ≤ (number : Int) ∧ (number : Int) < 2 ^ 31) := by omega
  unfold stoi
  simp only [kept, if_neg (not_or.mpr ⟨minus, plus⟩), taken, decimalValue_decimal, if_neg minus,
    if_neg (decimal_ne_nil number), if_neg bound]

/-- What follows a byte that is no digit does not count. -/
theorem stoi_append {first : UInt8} (plain : isSpace first = false ∧ first ≠ 45 ∧ first ≠ 43)
    (more : Bytes) {stop : UInt8} (noDigit : isDigit stop = false) (rest : Bytes) :
    stoi (first :: more ++ stop :: rest) = stoi (first :: more) := by
  obtain ⟨space, minus, plus⟩ := plain
  have kept (tail : Bytes) : (first :: tail).dropWhile isSpace = first :: tail :=
    List.dropWhile_cons_of_neg (by rw [space]; exact Bool.false_ne_true)
  have unsigned : ¬ (some first = some 45 ∨ some first = some 43) := by
    simpa only [Option.some.injEq, not_or] using ⟨minus, plus⟩
  have digits (front : Bytes) :
      (front ++ stop :: rest).takeWhile isDigit = front.takeWhile isDigit := by
    induction front with
    | nil => exact List.takeWhile_cons_of_neg (by rw [noDigit]; exact Bool.false_ne_true)
    | cons byte front ih => rw [List.cons_append, List.takeWhile_cons, List.takeWhile_cons, ih]
  have whole := digits (first :: more)
  rw [List.cons_append] at whole ⊢
  unfold stoi
  simp only [kept, List.head?_cons, if_neg unsigned, whole]

/-- `stoul` reads a printed number. -/
theorem stoul_decimal {number : Nat} (small : number < 2 ^ 64) :
    stoul (decimal number) = some (UInt64.ofNat number) := by
  obtain ⟨kept, minus, plus, taken⟩ := decimal_spec number
  unfold stoul
  simp only [kept, if_neg (not_or.mpr ⟨minus, plus⟩), taken, decimalValue_decimal, if_neg minus,
    if_neg (decimal_ne_nil number), if_pos small]

/-! ## Trimmed names -/

/-- No two dots stand side by side. -/
def NoDotRun (name : Bytes) : Prop := name.IsChain fun first second => first ≠ 46 ∨ second ≠ 46

/-- Dropping runs of dots leaves none. -/
theorem noDotRun_dropDotRuns (dots : Nat) (name : Bytes) : NoDotRun (dropDotRuns dots name) := by
  induction name generalizing dots with
  | nil =>
      unfold dropDotRuns NoDotRun
      split
      · exact .singleton 46
      · exact .nil
  | cons byte rest ih =>
      unfold dropDotRuns
      split
      · exact ih _
      · rename_i other
        have tail : NoDotRun (byte :: dropDotRuns 0 rest) :=
          List.IsChain.cons (ih 0) fun _ _ => .inl other
        split
        · exact List.isChain_cons_cons.mpr ⟨.inr other, tail⟩
        · exact tail

/-- Where no two dots stand side by side, none is dropped. -/
theorem dropDotRuns_of_noDotRun {name : Bytes} (chain : NoDotRun name) :
    dropDotRuns 0 name = name ∧ (NoDotRun (46 :: name) → dropDotRuns 1 name = 46 :: name) := by
  induction name with
  | nil => exact ⟨rfl, fun _ => rfl⟩
  | cons byte rest ih =>
      have rest_chain : NoDotRun rest := List.IsChain.of_cons chain
      obtain ⟨none, one⟩ := ih rest_chain
      constructor
      · unfold dropDotRuns
        split
        · rename_i dot
          rw [dot]
          exact one (dot ▸ chain)
        · rw [none]
          rfl
      · intro behind
        have other : byte ≠ 46 := by
          rcases List.isChain_cons_cons.mp behind with ⟨absurd_ | other, _⟩
          · exact absurd rfl absurd_
          · exact other
        unfold dropDotRuns
        rw [if_neg other, none]
        rfl

/-- Behind a dot there is none. -/
theorem NoDotRun.head_ne {rest : Bytes} (chain : NoDotRun (46 :: rest)) : rest.head? ≠ some 46 := by
  intro dotted
  rcases (List.isChain_cons.mp chain).1 46 dotted with other | other
  · exact other rfl
  · exact other rfl

/-- Before a dot there is none. -/
theorem NoDotRun.last_ne {front : Bytes} (chain : NoDotRun (front ++ [46])) :
    front.getLast? ≠ some 46 := by
  intro dotted
  rcases (List.isChain_append.mp chain).2.2 46 dotted 46 rfl with other | other
  · exact other rfl
  · exact other rfl

/-- A trimmed name: no special character, no two dots side by side and no dot at an end. -/
structure Trimmed (name : Bytes) : Prop where
  plain : ∀ byte ∈ name, isSpecialChar byte = false
  noDotRun : NoDotRun name
  head : name.head? ≠ some 46
  last : name.getLast? ≠ some 46

/-- A trimmed name is not changed by trimming. -/
theorem Trimmed.fixed {name : Bytes} (trimmed : Trimmed name) : trimFilenameSpecialChar name = name := by
  have kept : name.filter (fun byte => !isSpecialChar byte) = name :=
    List.filter_eq_self.mpr fun byte member => by rw [trimmed.plain byte member]; rfl
  unfold trimFilenameSpecialChar
  simp only [kept, (dropDotRuns_of_noDotRun trimmed.noDotRun).1, if_neg trimmed.head,
    if_neg trimmed.last]

/-- Dropping runs of dots brings in nothing but a dot that was read before. -/
theorem mem_of_mem_dropDotRuns {byte : UInt8} {dots : Nat} {name : Bytes}
    (member : byte ∈ dropDotRuns dots name) : byte = 46 ∨ byte ∈ name := by
  induction name generalizing dots with
  | nil =>
      unfold dropDotRuns at member
      split at member
      · exact .inl (List.mem_singleton.mp member)
      · cases member
  | cons first rest ih =>
      unfold dropDotRuns at member
      split at member
      · exact (ih member).imp_right (List.mem_cons_of_mem _)
      · rcases List.mem_append.mp member with dot | inside
        · split at dot
          · exact .inl (List.mem_singleton.mp dot)
          · cases dot
        · rcases List.mem_cons.mp inside with rfl | later
          · exact .inr (List.mem_cons_self ..)
          · exact (ih later).imp_right (List.mem_cons_of_mem _)

/-- Trimming makes a trimmed name. -/
theorem trimmed_trimFilenameSpecialChar (filename : Bytes) :
    Trimmed (trimFilenameSpecialChar filename) := by
  unfold trimFilenameSpecialChar
  generalize middle : dropDotRuns 0 (filename.filter fun byte => !isSpecialChar byte) = name
  have chain : NoDotRun name := middle ▸ noDotRun_dropDotRuns 0 _
  have plain : ∀ byte ∈ name, isSpecialChar byte = false := by
    intro byte member
    rw [← middle] at member
    rcases mem_of_mem_dropDotRuns member with rfl | kept
    · decide
    · simpa using (List.mem_filter.mp kept).2
  have stripped : ∃ name', (if name.head? = some 46 then name.drop 1 else name) = name' ∧
      (∀ byte ∈ name', isSpecialChar byte = false) ∧ NoDotRun name' ∧ name'.head? ≠ some 46 := by
    split
    · rename_i dotted
      obtain ⟨rest, rfl⟩ := List.head?_eq_some_iff.mp dotted
      refine ⟨rest, rfl, fun byte member => plain byte (List.mem_cons_of_mem _ member),
        List.IsChain.of_cons chain, chain.head_ne⟩
    · rename_i other
      exact ⟨name, rfl, plain, chain, other⟩
  obtain ⟨start, same, plain, chain, head⟩ := stripped
  simp only [same]
  split
  · rename_i dotted
    obtain ⟨front, rfl⟩ := List.getLast?_eq_some_iff.mp dotted
    rw [List.dropLast_concat]
    refine ⟨fun byte member => plain byte (List.mem_append_left _ member), ?_, ?_, chain.last_ne⟩
    · exact (List.isChain_append.mp chain).1
    · intro dot
      rw [List.head?_append, dot] at head
      exact head rfl
  · rename_i other
    exact ⟨plain, chain, head, other⟩

/-- Trimming a name once more changes nothing. -/
theorem trimFilenameSpecialChar_idem (filename : Bytes) :
    trimFilenameSpecialChar (trimFilenameSpecialChar filename) = trimFilenameSpecialChar filename :=
  (trimmed_trimFilenameSpecialChar filename).fixed

/-- Without runs of dots two of them never stand together. -/
theorem NoDotRun.not_isInfix {name : Bytes} (chain : NoDotRun name) : ¬ [46, 46] <:+: name := by
  rintro ⟨front, back, rfl⟩
  have inside := (List.isChain_append.mp (List.isChain_append.mp chain).1).2.1
  rcases (List.isChain_cons_cons.mp inside).1 with other | other
  · exact other rfl
  · exact other rfl

/-- Dropping runs of dots leaves the other bytes in their order. -/
theorem dropDotRuns_sublist (dots : Nat) (name : Bytes) :
    (dropDotRuns dots name).Sublist (List.replicate dots 46 ++ name) := by
  have single (dots : Nat) :
      (if dots = 1 then [46] else [] : Bytes).Sublist (List.replicate dots 46) := by
    split
    · rename_i one
      rw [one]
      exact .refl _
    · exact List.nil_sublist _
  induction name generalizing dots with
  | nil =>
      rw [List.append_nil]
      exact single dots
  | cons byte rest ih =>
      unfold dropDotRuns
      split
      · rename_i dot
        rw [dot, ← List.singleton_append, ← List.append_assoc, ← List.replicate_succ']
        exact ih (dots + 1)
      · exact (single dots).append ((ih 0).cons_cons byte)

/-- Trimming only takes characters out. -/
theorem trimFilenameSpecialChar_sublist (filename : Bytes) :
    (trimFilenameSpecialChar filename).Sublist filename := by
  have dropped : (dropDotRuns 0 (filename.filter fun byte => !isSpecialChar byte)).Sublist filename :=
    (dropDotRuns_sublist 0 _).trans List.filter_sublist
  have start (name : Bytes) : (if name.head? = some 46 then name.drop 1 else name).Sublist name := by
    split
    · exact List.drop_sublist 1 name
    · exact .refl name
  have stop (name : Bytes) : (if name.getLast? = some 46 then name.dropLast else name).Sublist name := by
    split
    · exact List.dropLast_sublist name
    · exact .refl name
  exact (stop _).trans ((start _).trans dropped)

/-- **Sanitised file names.** What is left of a name is a subsequence of it without special
characters, without `..` and without a dot at an end, and cleaning it again changes
nothing. -/
theorem trimFilenameSpecialChar_spec (filename : Bytes) :
    (∀ byte ∈ trimFilenameSpecialChar filename, isSpecialChar byte = false) ∧
      ¬ [46, 46] <:+: trimFilenameSpecialChar filename ∧
      (trimFilenameSpecialChar filename).head? ≠ some 46 ∧
      (trimFilenameSpecialChar filename).getLast? ≠ some 46 ∧
      (trimFilenameSpecialChar filename).Sublist filename ∧
      trimFilenameSpecialChar (trimFilenameSpecialChar filename) =
        trimFilenameSpecialChar filename := by
  have trimmed := trimmed_trimFilenameSpecialChar filename
  exact ⟨trimmed.plain, trimmed.noDotRun.not_isInfix, trimmed.head, trimmed.last,
    trimFilenameSpecialChar_sublist filename, trimmed.fixed⟩

end Cdfs
