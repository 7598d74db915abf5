import OncRpc.Gen.Modules

/-!
# Comments put between tokens

A block comment put between two tokens of a source file is dropped again before the file is cut into
tokens, so that the schema stays the same.  Includes are taken from the file as it stands, comments
and all.  A comment may hold a line that reads as an include, or stand before an include on its
line.
-/

namespace OncRpc

open Foundation Relation

/-! ## Dropping one comment -/

/-- The bytes of a character beyond ASCII are beyond ASCII. -/
theorem le_utf8EncodeChar {c : Char} (h : 128 ≤ c.toNat) :
    ∀ byte ∈ String.utf8EncodeChar c, 128 ≤ byte.toNat := by
  have hor : ∀ byte : UInt8, 128 ≤ (byte ||| 0x80).toNat ∧ 128 ≤ (byte ||| 0xC0).toNat ∧
      128 ≤ (byte ||| 0xE0).toNat ∧ 128 ≤ (byte ||| 0xF0).toNat := by
    intro byte
    simp only [UInt8.toNat_or]
    exact ⟨Nat.right_le_or, le_trans (by decide) Nat.right_le_or,
      le_trans (by decide) Nat.right_le_or, le_trans (by decide) Nat.right_le_or⟩
  have hsize : c.utf8Size ≠ 1 := by
    rw [Ne, Char.utf8Size_eq_one_iff, UInt32.le_iff_toNat_le]
    exact Nat.not_le.mpr h
  intro byte hbyte
  rcases Char.utf8Size_eq c with hc | hc | hc | hc
  · exact absurd hc hsize
  · rw [String.utf8EncodeChar_eq_cons_cons hc] at hbyte
    simp only [List.mem_cons, List.not_mem_nil, or_false] at hbyte
    rcases hbyte with rfl | rfl
    · exact (hor _).2.1
    · exact (hor _).1
  · rw [String.utf8EncodeChar_eq_cons_cons_cons hc] at hbyte
    simp only [List.mem_cons, List.not_mem_nil, or_false] at hbyte
    rcases hbyte with rfl | rfl | rfl
    · exact (hor _).2.2.1
    · exact (hor _).1
    · exact (hor _).1
  · rw [String.utf8EncodeChar_eq_cons_cons_cons_cons hc] at hbyte
    simp only [List.mem_cons, List.not_mem_nil, or_false] at hbyte
    rcases hbyte with rfl | rfl | rfl | rfl
    · exact (hor _).2.2.2
    · exact (hor _).1
    · exact (hor _).1
    · exact (hor _).1

/-- The byte of an ASCII character is only in the text of that character. -/
theorem eq_of_mem_utf8EncodeChar {c d : Char} (hd : d.toNat < 128)
    (h : UInt8.ofNat d.toNat ∈ String.utf8EncodeChar c) : c = d := by
  have hbyte : ∀ n < 128, (UInt8.ofNat n).toNat = n := by
    intro n hn
    rw [UInt8.toNat_ofNat']
    omega
  rcases Nat.lt_or_ge c.toNat 128 with hc | hc
  · rw [utf8EncodeChar_of_lt hc, List.mem_singleton] at h
    refine (toNat_eq_iff d).mpr ?_
    rw [← hbyte _ hc, ← hbyte _ hd, h]
  · have hle := le_utf8EncodeChar hc _ h
    rw [hbyte _ hd] at hle
    exact absurd hd (Nat.not_lt.mpr hle)

/-- Inside a comment a byte is dropped, unless it starts the end of the comment. -/
theorem stripComments_skip {byte : UInt8} {rest : List UInt8}
    (h : byte = 0x2A → rest.head? ≠ some 0x2F) :
    stripComments true (byte :: rest) = stripComments true rest := by
  rw [stripComments.eq_def]
  split <;> simp_all

/-- Bytes without an asterisk are dropped inside a comment. -/
theorem stripComments_skip_all {bytes rest : List UInt8} (h : 0x2A ∉ bytes) :
    stripComments true (bytes ++ rest) = stripComments true rest := by
  induction bytes with
  | nil => rfl
  | cons byte bytes ih =>
    rw [List.mem_cons, not_or] at h
    rw [List.cons_append, stripComments_skip fun heq => absurd heq.symm h.1, ih h.2]

/-- A comment goes on to its first end. -/
theorem stripComments_comment {comment : List Char} (h : ¬ ['*', '/'] <:+: comment)
    (rest : List UInt8) :
    stripComments true (asBytes comment ++ 0x2A :: 0x2F :: rest) = stripComments false rest := by
  induction comment with
  | nil => simp only [asBytes, List.flatMap_nil, List.nil_append, stripComments]
  | cons c comment ih =>
    have htail : ¬ ['*', '/'] <:+: comment :=
      fun hinside => h (hinside.trans (List.suffix_cons _ _).isInfix)
    rw [asBytes, List.flatMap_cons, List.append_assoc]
    have hrest := ih htail
    rw [asBytes] at hrest
    by_cases hc : c = '*'
    · subst hc
      rw [utf8EncodeChar_of_lt (by decide), List.singleton_append, stripComments_skip, hrest]
      intro _ hhead
      rcases comment with _ | ⟨d, comment⟩
      · simp at hhead
      · -- the next character is not the slash, so neither is its first byte
        have hd : d = '/' := by
          refine eq_of_mem_utf8EncodeChar (by decide) ?_
          rw [List.flatMap_cons, List.append_assoc] at hhead
          obtain ⟨byte, bytes, hbytes⟩ :=
            List.exists_cons_of_ne_nil (@String.utf8EncodeChar_ne_nil d)
          rw [hbytes, List.cons_append, List.head?_cons, Option.some.injEq] at hhead
          rw [hbytes, hhead]
          exact List.mem_cons_self
        subst hd
        exact h (List.prefix_append ['*', '/'] comment).isInfix
    · rw [stripComments_skip_all fun hmem => hc (eq_of_mem_utf8EncodeChar (by decide) hmem), hrest]

/-- Text that ends outside a comment is stripped by itself, if a comment follows. -/
theorem stripComments_open {inside : Bool} {bytes : List UInt8} {text : List Char}
    (h : stripComments inside bytes = .ok text) (rest : List UInt8) :
    stripComments inside (bytes ++ 0x2F :: 0x2A :: rest) =
      (stripComments true rest).map (text ++ ·) := by
  fun_induction stripComments inside bytes generalizing text with
  | case1 bytes ih => simpa [stripComments] using ih h
  | case2 byte bytes hopen ih =>
    obtain ⟨tail, htail, rfl⟩ := map_ok_iff.mp h
    rw [List.cons_append, stripComments_keep, ih htail]
    · rcases stripComments true rest with e | stripped <;> rfl
    · intro hslash hhead
      rcases bytes with _ | ⟨next, bytes⟩
      · simp at hhead
      · rw [List.cons_append, List.head?_cons, Option.some.injEq] at hhead
        exact hopen bytes hslash (by rw [hhead])
  | case3 =>
    obtain rfl : [] = text := Except.ok.inj h
    rcases hrest : stripComments true rest with e | stripped <;>
      simp [stripComments, hrest, Except.map]
  | case4 bytes ih => simpa [stripComments] using ih h
  | case5 byte bytes hclose ih =>
    rw [List.cons_append, stripComments_skip, ih h]
    intro hstar hhead
    rcases bytes with _ | ⟨next, bytes⟩
    · simp [stripComments] at h
    · rw [List.cons_append, List.head?_cons, Option.some.injEq] at hhead
      exact hclose bytes hstar (by rw [hhead])
  | case6 => simp at h

/-- A place between two tokens: the text before it and the text after it are read by themselves, and
their tokens are those of the whole. -/
structure TokenBoundary (before after : List Char) : Prop where
  stripped : ∃ front back, stripBlockComments before = .ok front ∧
    stripBlockComments after = .ok back ∧ stripBlockComments (before ++ after) = .ok (front ++ back)
  tokens : ∃ front back, sourceTokens before = .ok (front ++ [.eof]) ∧
    sourceTokens after = .ok (back ++ [.eof]) ∧
    sourceTokens (before ++ after) = .ok (front ++ back ++ [.eof])

/-- A text with a comment in it. -/
def withComment (before comment after : List Char) : List Char :=
  before ++ ('/' :: '*' :: comment ++ ['*', '/']) ++ after

/-- A comment between two tokens is dropped. -/
theorem TokenBoundary.stripBlockComments_comment {before comment after : List Char}
    (h : TokenBoundary before after) (hcomment : ¬ ['*', '/'] <:+: comment) :
    stripBlockComments (withComment before comment after) = stripBlockComments (before ++ after) :=
      by
  obtain ⟨front, back, hfront, hback, hwhole⟩ := h.stripped
  have hbytes : asBytes (withComment before comment after) =
      asBytes before ++ 0x2F :: 0x2A :: (asBytes comment ++ 0x2A :: 0x2F :: asBytes after) := by
    have hmarks : String.utf8EncodeChar '/' = [0x2F] ∧ String.utf8EncodeChar '*' = [0x2A] := by
      decide
    simp [withComment, asBytes, hmarks]
  rw [hwhole, stripBlockComments, hbytes, stripComments_open hfront, stripComments_comment hcomment]
  rw [stripBlockComments] at hback
  rw [hback]
  rfl

/-! ## The lines that a comment stands on -/

/-- The files that the lines of a text include. -/
def includesOf (text : List Char) : List String := (splitLines text).filterMap includeOfLine

-- Nothing is included by another percent line.
example : includesOf "%#include \"b.h\"\r\n%use c;\n".toList = ["b.h"] := by decide +kernel

/-- White space at the end of a line does not count. -/
theorem includeOfLine_concat {c : Char} (hc : isWhitespace c) (line : List Char) :
    includeOfLine (line ++ [c]) = includeOfLine line := by
  have htrim : trim (line ++ [c]) = trim line := by
    simp only [trim, trimStart, List.dropWhile_append]
    split
    · rename_i hempty
      rw [List.isEmpty_iff.mp hempty]
      simp [hc]
    · rw [List.rdropWhile_concat_pos _ _ _ hc]
  simp only [includeOfLine, htrim]

/-- An empty line includes nothing. -/
theorem includeOfLine_nil : includeOfLine [] = none := by decide

/-- The lines of a text are what stands between its line feeds, but for a carriage return at the end
of a line, and for nothing at the end of the text. -/
theorem splitLines_splitOn (text : List Char) :
    ∃ raw, List.Forall₂ (fun line raw => raw = line ∨ raw = line ++ ['\r']) (splitLines text) raw ∧
      (text.splitOn '\n' = raw ∨ text.splitOn '\n' = raw ++ [[]]) := by
  fun_induction splitLines text with
  | case1 => exact ⟨[], .nil, .inr rfl⟩
  | case2 rest ih =>
    obtain ⟨raw, hlines, hraw⟩ := ih
    refine ⟨[] :: raw, .cons (.inl rfl) hlines, ?_⟩
    simpa [List.splitOn_eq_splitOnP, List.splitOnP_cons_eq_if_modifyHead] using hraw
  | case3 rest ih =>
    obtain ⟨raw, hlines, hraw⟩ := ih
    refine ⟨['\r'] :: raw, .cons (.inr rfl) hlines, ?_⟩
    simpa [List.splitOn_eq_splitOnP, List.splitOnP_cons_eq_if_modifyHead] using hraw
  | case4 c rest hfeed hreturn hempty ih =>
    obtain rfl := splitLines_eq_nil.mp hempty
    refine ⟨[[c]], .cons (.inl rfl) .nil, .inl ?_⟩
    have hc : (c == '\n') = false := by simpa using fun h => hfeed h
    simp [List.splitOn_eq_splitOnP, List.splitOnP_cons_eq_if_modifyHead, hc]
  | case5 c rest hfeed hreturn line lines hrest ih =>
    obtain ⟨raw, hlines, hraw⟩ := ih
    rw [hrest] at hlines
    obtain ⟨first, more, hfirst, hmore, rfl⟩ := List.forall₂_cons_left_iff.mp hlines
    have hc : (c == '\n') = false := by simpa using fun h => hfeed h
    refine ⟨(c :: first) :: more, .cons ?_ hmore, ?_⟩
    · rcases hfirst with rfl | rfl
      · exact .inl rfl
      · exact .inr rfl
    · rw [List.splitOn_eq_splitOnP] at hraw ⊢
      rw [List.splitOnP_cons_eq_if_modifyHead, hc]
      rcases hraw with hraw | hraw <;> simp [hraw]

/-- Carriage returns at the ends of lines make no difference. -/
theorem filterMap_includeOfLine {lines raw : List (List Char)}
    (h : List.Forall₂ (fun line raw => raw = line ∨ raw = line ++ ['\r']) lines raw) :
    lines.filterMap includeOfLine = raw.filterMap includeOfLine := by
  induction h with
  | nil => rfl
  | @cons line first lines raw hline _ ih =>
    have hinclude : includeOfLine first = includeOfLine line := by
      rcases hline with rfl | rfl
      · rfl
      · exact includeOfLine_concat (by decide) line
    simp only [List.filterMap_cons, hinclude, ih]

/-- The includes of a text are those between its line feeds. -/
theorem includesOf_eq_splitOn (text : List Char) :
    includesOf text = (text.splitOn '\n').filterMap includeOfLine := by
  obtain ⟨raw, hlines, hraw⟩ := splitLines_splitOn text
  rw [includesOf, filterMap_includeOfLine hlines]
  rcases hraw with hraw | hraw
  · rw [hraw]
  · rw [hraw, List.filterMap_append]
    simp [includeOfLine_nil]

/-- The includes of two texts with a line feed between them. -/
theorem includesOf_newline (front back : List Char) :
    includesOf (front ++ '\n' :: back) = includesOf front ++ includesOf back := by
  simp only [includesOf_eq_splitOn, List.splitOn_eq_splitOnP]
  rw [List.splitOnP_append_cons _ _ (by rfl), List.filterMap_append]

/-- Empty text includes nothing. -/
theorem includesOf_nil : includesOf [] = [] := rfl

/-- The includes of a line. -/
theorem includesOf_line {line : List Char} (h : ∀ c ∈ line, c ≠ '\n') :
    includesOf line = (includeOfLine line).toList := by
  rw [includesOf_eq_splitOn, List.splitOn_eq_splitOnP,
    List.splitOnP_eq_singleton (by simpa using h)]
  rcases hline : includeOfLine line with _ | file <;> simp [hline]

/-- The line that a text ends in, and the lines before it. -/
def lastLine (text : List Char) : List Char := text.rtakeWhile (· ≠ '\n')

@[inherit_doc lastLine]
def earlierLines (text : List Char) : List Char := text.rdropWhile (· ≠ '\n')

/-- The line that a text starts with, and the lines after it. -/
def firstLine (text : List Char) : List Char := text.takeWhile (· ≠ '\n')

@[inherit_doc firstLine]
def laterLines (text : List Char) : List Char := text.dropWhile (· ≠ '\n')

/-- Text put in front changes the includes on its last line only. -/
theorem includesOf_append_left (before text : List Char) :
    includesOf (before ++ text) =
      includesOf (earlierLines before) ++ includesOf (lastLine before ++ text) := by
  have hsplit : before = earlierLines before ++ lastLine before :=
    List.rdropWhile_append_rtakeWhile.symm
  conv_lhs => rw [hsplit]
  rcases List.eq_nil_or_concat (earlierLines before) with hnil | ⟨front, c, hconcat⟩
  · simp [hnil, includesOf_nil]
  · rw [List.concat_eq_append] at hconcat
    have hc : c = '\n' := by
      have hlast := List.rdropWhile_last_not (· ≠ '\n') before
      rw [← earlierLines, hconcat] at hlast
      simpa using hlast
    subst hc
    rw [hconcat, List.append_assoc, List.append_assoc, List.singleton_append, includesOf_newline,
      includesOf_newline, includesOf_nil, List.append_nil]

/-- Text put behind changes the includes on its first line only. -/
theorem includesOf_append_right (text after : List Char) :
    includesOf (text ++ after) =
      includesOf (text ++ firstLine after) ++ includesOf (laterLines after) := by
  have hsplit : after = firstLine after ++ laterLines after :=
    (List.takeWhile_append_dropWhile).symm
  conv_lhs => rw [hsplit]
  rcases hlater : laterLines after with _ | ⟨c, back⟩
  · simp [includesOf_nil]
  · have hc : c = '\n' := by
      have hhead := List.head?_dropWhile_not (· ≠ '\n') after
      rw [laterLines] at hlater
      rw [hlater] at hhead
      simpa using hhead
    subst hc
    rw [← List.append_assoc, includesOf_newline]
    have hback : includesOf ('\n' :: back) = includesOf back := by
      have h := includesOf_newline [] back
      rwa [includesOf_nil, List.nil_append, List.nil_append] at h
    rw [hback]

/-- What stands between two texts changes the includes of one line only. -/
theorem includesOf_between (before middle after : List Char) :
    includesOf (before ++ middle ++ after) = includesOf (earlierLines before) ++
      includesOf (lastLine before ++ middle ++ firstLine after) ++
      includesOf (laterLines after) := by
  rw [includesOf_append_right, List.append_assoc before, includesOf_append_left,
    ← List.append_assoc, List.append_assoc]

/-! ## What is loaded -/

/-- The file system, with another text in one file. -/
def FileSystem.withText (fs : FileSystem) (file : Path) (text : String) : FileSystem :=
  { fs with readToString := fun path => if path = file then .ok text else fs.readToString path }

/-- Two file systems that are loaded alike from a path: if one can be loaded then so can the other,
and the same files become modules, with the same schemas. -/
def SameLoad (fs fs' : FileSystem) (options : LoadOptions) (path : Path) : Prop :=
  ((∃ fuel loaded, loadModuleSetFromXFileWithOptions fs options fuel path = some (.ok loaded)) ↔
    ∃ fuel loaded, loadModuleSetFromXFileWithOptions fs' options fuel path = some (.ok loaded)) ∧
  ∀ fuel loaded fuel' loaded',
    loadModuleSetFromXFileWithOptions fs options fuel path = some (.ok loaded) →
    loadModuleSetFromXFileWithOptions fs' options fuel' path = some (.ok loaded') →
    ∀ file schema,
      (∃ module ∈ loaded.modules, module.path = file ∧ module.schema = schema) ↔
        ∃ module ∈ loaded'.modules, module.path = file ∧ module.schema = schema

/-- The modules that are loaded are those of the files that the root leads to. -/
theorem mem_modules_iff {fs : FileSystem} {options : LoadOptions} {fuel : ℕ} {path root : Path}
    {loaded : LoadedSchemaSet} (hroot : RootFile fs path root)
    (h : loadModuleSetFromXFileWithOptions fs options fuel path = some (.ok loaded)) (file : Path)
    (schema : Schema) :
    (∃ module ∈ loaded.modules, module.path = file ∧ module.schema = schema) ↔
      ReflTransGen (Includes fs options) root file ∧
        ∃ source, fs.readToString file = .ok source ∧ parseSource source = .ok schema := by
  obtain ⟨root', final, ⟨rootPath', hpath', hroot'⟩, hwalk, hmodules⟩ := walk_of_load h
  obtain ⟨rootPath, hpath, hroot⟩ := hroot
  obtain rfl : rootPath = rootPath' := Except.ok.inj (hpath.symm.trans hpath')
  obtain rfl : root = root' := Except.ok.inj (hroot.symm.trans hroot')
  obtain ⟨hreach, -, -⟩ := hwalk.complete
  rw [Loading.search, ← hmodules] at hreach
  constructor
  · rintro ⟨module, hmodule, rfl, rfl⟩
    obtain ⟨-, source, hread, hparse, -⟩ := moduleOf_of_load h module hmodule
    exact ⟨(hreach _).mp (List.mem_map_of_mem hmodule), source, hread, hparse⟩
  · rintro ⟨hfile, source, hread, hparse⟩
    obtain ⟨module, hmodule, rfl⟩ := List.mem_map.mp ((hreach file).mpr hfile)
    obtain ⟨-, source', hread', hparse', -⟩ := moduleOf_of_load h module hmodule
    obtain rfl : source = source' := Except.ok.inj (hread.symm.trans hread')
    exact ⟨module, hmodule, rfl, Except.ok.inj (hparse'.symm.trans hparse)⟩

section Replace

variable {fs : FileSystem} {options : LoadOptions} {file : Path} {source changed : String}

/-- A file reads as before, or as the text that it has now. -/
theorem read_withText (hread : fs.readToString file = .ok source) {P : String → Prop}
    (h : P changed ↔ P source) (path : Path) :
    (∃ text, (fs.withText file changed).readToString path = .ok text ∧ P text) ↔
      ∃ text, fs.readToString path = .ok text ∧ P text := by
  by_cases hpath : path = file
  · subst hpath
    simp [FileSystem.withText, hread, h]
  · simp [FileSystem.withText, hpath]

/-- The include graph does not change if the text includes the same files. -/
theorem includes_withText (hread : fs.readToString file = .ok source)
    (hincludes : ∀ included, included ∈ extractIncludes changed ↔
      included ∈ extractIncludes source) :
    Includes (fs.withText file changed) options = Includes fs options := by
  have hedge : ∀ (fs : FileSystem) path target, Includes fs options path target ↔
      ∃ text, fs.readToString path = .ok text ∧
        ∃ included ∈ extractIncludes text, includeTarget fs options path included = some target :=
          by
    intro fs path target
    simp only [Includes, Edge, includeTargets]
    rcases fs.readToString path with e | text <;> simp
  funext path target
  refine propext ?_
  rw [hedge, hedge]
  exact @read_withText fs file source changed hread (fun text => ∃ included ∈ extractIncludes text,
    includeTarget fs options path included = some target) (by simp only [hincludes]) path

/-- Nothing that is loaded changes if the text has the same schema and includes the same files. -/
theorem sameLoad_withText (hread : fs.readToString file = .ok source)
    (hschema : parseSource changed = parseSource source)
    (hincludes : ∀ included, included ∈ extractIncludes changed ↔ included ∈ extractIncludes source)
    (path : Path) : SameLoad fs (fs.withText file changed) options path := by
  have hgraph := @includes_withText fs options file source changed hread hincludes
  have hloadable : ∀ target,
      Loadable (fs.withText file changed) options target ↔ Loadable fs options target := by
    intro target
    have h := @read_withText fs file source changed hread (fun text => ∃ schema,
      parseSource text = .ok schema ∧ ∀ included ∈ extractIncludes text, ∃ includePath target',
        resolveInclude fs options target included = some includePath ∧
        fs.canonicalize includePath = .ok target') (by simp only [hschema, hincludes]) target
    simp only [exists_and_left] at h
    simp only [Loadable, exists_and_left]
    exact h
  refine ⟨?_, ?_⟩
  · rw [load_succeeds_iff, load_succeeds_iff, hgraph]
    simp only [hloadable]
    rfl
  · intro fuel loaded fuel' loaded' hload hload' target schema
    obtain ⟨root, -, hroot, -⟩ := walk_of_load hload
    have hroot' : RootFile (fs.withText file changed) path root := hroot
    rw [mem_modules_iff hroot hload, mem_modules_iff hroot' hload', hgraph]
    refine and_congr_right fun _ => ?_
    exact (@read_withText fs file source changed hread (fun text => parseSource text = .ok schema)
      (by rw [hschema]) target).symm

end Replace

/-! ## Comments as white space -/

/-- A change of a text that nothing is seen of: the schema is the same, the text includes the same
files, and whatever is loaded with the text in one of its files is loaded as before. -/
structure Unseen (source changed : String) : Prop where
  schema : parseSource changed = parseSource source
  includes : ∀ included, included ∈ extractIncludes changed ↔ included ∈ extractIncludes source
  loads : ∀ fs options file, fs.readToString file = .ok source →
    ∀ path, SameLoad fs (fs.withText file changed) options path

/-- The lines that a comment stands on, its own among them. -/
def commentLines (before comment after : List Char) : List (List Char) :=
  splitLines (lastLine before ++ ('/' :: '*' :: comment ++ ['*', '/']) ++ firstLine after)

/-- A comment keeps the includes: if one of the lines it stands on reads as an include then so does
another line or the line without the comment, and if the line without the comment reads as an
include then so does another line or one of those with the comment. -/
structure KeepsIncludes (before comment after : List Char) : Prop where
  made : ∀ line ∈ commentLines before comment after, ∀ included,
    includeOfLine line = some included →
      included ∈ includesOf (earlierLines before) ∨ included ∈ includesOf (laterLines after) ∨
        includeOfLine (lastLine before ++ firstLine after) = some included
  kept : ∀ included, includeOfLine (lastLine before ++ firstLine after) = some included →
    included ∈ includesOf (earlierLines before) ∨ included ∈ includesOf (laterLines after) ∨
      ∃ line ∈ commentLines before comment after, includeOfLine line = some included

/-- The includes stay the same exactly if the comment keeps them. -/
theorem includes_comment_iff (before comment after : List Char) :
    (∀ included, included ∈ extractIncludes (String.ofList (withComment before comment after)) ↔
      included ∈ extractIncludes (String.ofList (before ++ after))) ↔
      KeepsIncludes before comment after := by
  have hnew : ∀ included,
      included ∈ extractIncludes (String.ofList (withComment before comment after)) ↔
        (included ∈ includesOf (earlierLines before) ∨
          ∃ line ∈ commentLines before comment after, includeOfLine line = some included) ∨
        included ∈ includesOf (laterLines after) := by
    intro included
    have hsplit := includesOf_between before ('/' :: '*' :: comment ++ ['*', '/']) after
    rw [extractIncludes, String.toList_ofList, ← includesOf, withComment, hsplit, List.mem_append,
      List.mem_append]
    refine or_congr_left (or_congr_right ?_)
    rw [includesOf, List.mem_filterMap, commentLines]
  have hold : ∀ included, included ∈ extractIncludes (String.ofList (before ++ after)) ↔
      (included ∈ includesOf (earlierLines before) ∨
        includeOfLine (lastLine before ++ firstLine after) = some included) ∨
      included ∈ includesOf (laterLines after) := by
    intro included
    have hsplit := includesOf_between before [] after
    rw [List.append_nil, List.append_nil] at hsplit
    have hline : ∀ c ∈ lastLine before ++ firstLine after, c ≠ '\n' := by
      intro c hc
      rcases List.mem_append.mp hc with hc | hc
      · simpa using List.mem_rtakeWhile_imp hc
      · simpa using List.mem_takeWhile_imp hc
    rw [extractIncludes, String.toList_ofList, ← includesOf, hsplit, List.mem_append,
      List.mem_append, includesOf_line hline, Option.mem_toList]
  constructor
  · intro h
    refine ⟨fun line hline included hincluded => ?_, fun included hincluded => ?_⟩
    · rcases (hold included).mp ((h included).mp ((hnew included).mpr
        (.inl (.inr ⟨line, hline, hincluded⟩)))) with (h | h) | h
      · exact .inl h
      · exact .inr (.inr h)
      · exact .inr (.inl h)
    · rcases (hnew included).mp ((h included).mpr ((hold included).mpr
        (.inl (.inr hincluded)))) with (h | h) | h
      · exact .inl h
      · exact .inr (.inr h)
      · exact .inr (.inl h)
  · intro h included
    rw [hnew, hold]
    constructor
    · rintro ((hearlier | ⟨line, hline, hincluded⟩) | hlater)
      · exact .inl (.inl hearlier)
      · rcases h.made line hline included hincluded with hearlier | hlater | hincluded
        · exact .inl (.inl hearlier)
        · exact .inr hlater
        · exact .inl (.inr hincluded)
      · exact .inr hlater
    · rintro ((hearlier | hincluded) | hlater)
      · exact .inl (.inl hearlier)
      · rcases h.kept included hincluded with hearlier | hlater | hline
        · exact .inl (.inl hearlier)
        · exact .inr hlater
        · exact .inl (.inr hline)
      · exact .inr hlater

/-- Nothing is seen of a comment between two tokens exactly if it keeps the includes. -/
theorem comment_unseen_iff (before comment after : List Char) (h : TokenBoundary before after)
    (hcomment : ¬ ['*', '/'] <:+: comment) :
    Unseen (String.ofList (before ++ after)) (String.ofList (withComment before comment after)) ↔
      KeepsIncludes before comment after := by
  have hschema : parseSource (String.ofList (withComment before comment after)) =
      parseSource (String.ofList (before ++ after)) := by
    have hparse : parseXSource (String.ofList (withComment before comment after)) =
        parseXSource (String.ofList (before ++ after)) := by
      simp only [parseXSource, sourceTokens, String.toList_ofList,
        h.stripBlockComments_comment hcomment]
    simp only [parseSource, hparse]
  constructor
  · intro hunseen
    exact (includes_comment_iff before comment after).mp hunseen.includes
  · intro hkeeps
    have hincludes := (includes_comment_iff before comment after).mpr hkeeps
    exact ⟨hschema, hincludes, fun fs options file hread =>
      sameLoad_withText hread hschema hincludes⟩

/-- Nothing is seen of a comment of two lines in the middle of a declaration. -/
theorem comment_unseen_const :
    Unseen "const A = 1;\n" "const A /* the\nfirst */= 1;\n" := by
  have hboundary : TokenBoundary "const A ".toList "= 1;\n".toList := by
    refine ⟨⟨"const A ".toList, "= 1;\n".toList, ?_, ?_, ?_⟩, ⟨[.keyword .const, .identifier "A"],
      [.symbol '=', .number 1, .symbol ';'], ?_, ?_, ?_⟩⟩ <;> decide +kernel
  have hkeeps : KeepsIncludes "const A ".toList " the\nfirst ".toList "= 1;\n".toList := by
    have hlines : ∀ line ∈ commentLines "const A ".toList " the\nfirst ".toList "= 1;\n".toList,
        includeOfLine line = none := by decide +kernel
    have hline : includeOfLine (lastLine "const A ".toList ++ firstLine "= 1;\n".toList) = none :=
      by
      decide +kernel
    refine ⟨fun line hmem included h => ?_, fun included h => ?_⟩
    · rw [hlines line hmem] at h
      simp at h
    · rw [hline] at h
      simp at h
  exact (comment_unseen_iff _ _ _ hboundary (by decide)).mpr hkeeps

/-- A file with a text, and an empty file beside it. -/
def fileWithText (text : String) : FileSystem where
  canonicalize path :=
    if path = ⟨true, ["a.x"]⟩ ∨ path = ⟨true, ["b.x"]⟩ then .ok path else .error "not found"
  isFile path := path = ⟨true, ["a.x"]⟩ ∨ path = ⟨true, ["b.x"]⟩
  readToString path :=
    if path = ⟨true, ["a.x"]⟩ then .ok text
    else if path = ⟨true, ["b.x"]⟩ then .ok ""
    else .error "not found"

/-- A comment between two declarations that has a line which reads as an include is seen: the file
that the line names is loaded. -/
theorem comment_includes_file :
    TokenBoundary "const A = 1;\n".toList "const B = 2;\n".toList ∧
    ¬ ['*', '/'] <:+: "\n%#include \"b.h\"\n".toList ∧
    withComment "const A = 1;\n".toList "\n%#include \"b.h\"\n".toList "const B = 2;\n".toList =
      "const A = 1;\n/*\n%#include \"b.h\"\n*/const B = 2;\n".toList ∧
    (loadModuleSetFromXFileWithOptions (fileWithText "const A = 1;\nconst B = 2;\n") ⟨[]⟩ 3
      ⟨true, ["a.x"]⟩).map (fun result => result.map fun loaded =>
        loaded.modules.map LoadedModule.path) = some (.ok [⟨true, ["a.x"]⟩]) ∧
    (loadModuleSetFromXFileWithOptions
      (fileWithText "const A = 1;\n/*\n%#include \"b.h\"\n*/const B = 2;\n") ⟨[]⟩ 3
      ⟨true, ["a.x"]⟩).map (fun result => result.map fun loaded =>
        loaded.modules.map LoadedModule.path) = some (.ok [⟨true, ["b.x"]⟩, ⟨true, ["a.x"]⟩]) ∧
    ¬ Unseen "const A = 1;\nconst B = 2;\n"
      "const A = 1;\n/*\n%#include \"b.h\"\n*/const B = 2;\n" := by
  refine ⟨⟨⟨"const A = 1;\n".toList, "const B = 2;\n".toList, ?_, ?_, ?_⟩,
    ⟨[.keyword .const, .identifier "A", .symbol '=', .number 1, .symbol ';'],
      [.keyword .const, .identifier "B", .symbol '=', .number 2,
        .symbol ';'], ?_, ?_, ?_⟩⟩, ?_, ?_, ?_,
    ?_, ?_⟩
  any_goals decide +kernel
  intro hunseen
  have hincludes := hunseen.includes "b.h"
  exact absurd (hincludes.mp (by decide +kernel)) (by decide +kernel)

end OncRpc
