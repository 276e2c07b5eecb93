import Simple.Log.FileNames

/-! The names of the files that hold the compressed logs. -/

namespace Simple.Log

open Simple.Lib.Calendar Simple.Utils.Time

/-- `filename()` of `std::filesystem::path` -/
def pathFilename (path : Text) : Text := (path.reverse.takeWhile (· ≠ '/')).reverse

/-- `extension()`, for the last part of a path -/
def pathExtension (file : Text) : Text :=
  if file = ['.', '.'] ∨ file.length ≤ (file.reverse.takeWhile (· ≠ '.')).length + 1 then []
  else '.' :: (file.reverse.takeWhile (· ≠ '.')).reverse

/-- `replace_extension`, where the new one begins with a dot -/
def replaceExtension (path ext : Text) : Text :=
  path.take (path.length - (pathExtension (pathFilename path)).length) ++ ext

def archiveExtension : Text := ".log.lz4".toList

def archiveName (lz4Directory src : Text) : Text :=
  replaceExtension (appendPath (cStr lz4Directory) (pathFilename src)) archiveExtension

variable {config : FileAppenderConfig} {pid : ℕ}

lemma takeWhile_reverse_append {c : Char} {a b : Text} (hb : c ∉ b) :
    (a ++ b).reverse.takeWhile (· ≠ c) = b.reverse ++ a.reverse.takeWhile (· ≠ c) := by
  rw [List.reverse_append, List.takeWhile_append_of_pos]
  intro x hx
  apply decide_eq_true
  rintro rfl
  exact hb (List.mem_reverse.mp hx)

lemma pathFilename_append {a b : Text} (hb : '/' ∉ b) :
    pathFilename (a ++ b) = pathFilename a ++ b := by
  rw [pathFilename, takeWhile_reverse_append hb, List.reverse_append, List.reverse_reverse]
  rfl

lemma slash_notMem_pathFilename (path : Text) : '/' ∉ pathFilename path := by
  intro h
  have hmem := List.mem_takeWhile_imp (List.mem_reverse.mp h)
  simp at hmem

lemma pathExtension_append {a b : Text} (ha : a ≠ []) (hb : '.' ∉ b) (hb' : b ≠ []) :
    pathExtension (a ++ '.' :: b) = '.' :: b := by
  have htake : (a ++ '.' :: b).reverse.takeWhile (· ≠ '.') = b.reverse := by
    rw [show a ++ '.' :: b = (a ++ ['.']) ++ b by simp, takeWhile_reverse_append hb]
    simp
  have hne : a ++ '.' :: b ≠ ['.', '.'] := by
    intro h
    obtain ⟨x, a, rfl⟩ := List.exists_cons_of_ne_nil ha
    obtain ⟨y, b, rfl⟩ := List.exists_cons_of_ne_nil hb'
    have hlen := congrArg List.length h
    simp at hlen
    omega
  have hlong : ¬(a ++ '.' :: b).length ≤ b.reverse.length + 1 := by
    have hpos := List.length_pos_iff.mpr ha
    simp
    omega
  rw [pathExtension, htake, if_neg (not_or.mpr ⟨hne, hlong⟩), List.reverse_reverse]

lemma replaceExtension_append {dir a b ext : Text} (hdir : pathFilename dir = [])
    (hslash : '/' ∉ a ++ '.' :: b) (ha : a ≠ []) (hb : '.' ∉ b) (hb' : b ≠ []) :
    replaceExtension (dir ++ (a ++ '.' :: b)) ext = dir ++ (a ++ ext) := by
  have hlen : (dir ++ (a ++ '.' :: b)).length - ('.' :: b).length = (dir ++ a).length := by
    simp
    omega
  rw [replaceExtension, pathFilename_append hslash, hdir, List.nil_append,
    pathExtension_append ha hb hb', hlen, ← List.append_assoc dir, List.take_left,
    List.append_assoc]

def nameTail (pid : ℕ) (tm : Tm) (id : ℕ) : Text :=
  '_' :: (timeText tm ++ '_' :: (decimalText pid ++ idText id))

lemma notMem_digits {c : Char} (hc : c.isDigit = false) (n : ℕ) : c ∉ Nat.toDigits 10 n := by
  intro h
  rw [Nat.isDigit_of_mem_toDigits (by decide) (by decide) h] at hc
  cases hc

lemma notMem_twoDigits {c : Char} (hc : c.isDigit = false) (n : ℕ) : c ∉ twoDigits n := by
  have hdigit : ∀ d < 10, (Nat.digitChar d).isDigit = true := by decide
  have hne : ∀ d < 10, c ≠ d.digitChar := by
    rintro d hd rfl
    rw [hdigit d hd] at hc
    cases hc
  simp only [twoDigits, List.mem_cons, List.not_mem_nil, or_false, not_or]
  exact ⟨hne _ (Nat.mod_lt _ (by decide)), hne _ (Nat.mod_lt _ (by decide))⟩

lemma slash_notMem_nameTail (tm : Tm) (id : ℕ) : '/' ∉ nameTail pid tm id := by
  have hdigits : ∀ n, '/' ∉ Nat.toDigits 10 n := notMem_digits (by decide)
  have htwo : ∀ n, '/' ∉ twoDigits n := notMem_twoDigits (by decide)
  have hyear : ∀ n, '/' ∉ yearText n := by
    intro n
    rw [yearText]
    split_ifs
    · simp [htwo]
    · exact hdigits n
  have hid : '/' ∉ idText id := by
    rw [idText]
    split_ifs
    · exact List.not_mem_nil
    · simp [decimalText, hdigits]
  simp [nameTail, timeText, decimalText, hdigits, htwo, hyear, hid]

lemma fileName_eq (tm : Tm) (id : ℕ) :
    fileName config pid tm id = config.name ++ (nameTail pid tm id ++ extension) := by
  simp [fileName, nameTail]

lemma exists_fullName (config : FileAppenderConfig) (pid : ℕ) : ∃ front : Text, ∀ tm id,
    fullName config pid tm id = front ++ (nameTail pid tm id ++ extension) := by
  have hhead : ∀ tm id, (fileName config pid tm id).head? =
      (config.name ++ ['_']).head? := by
    intro tm id
    cases hname : config.name <;> simp [fileName_eq, nameTail, hname]
  have hfull : ∀ tm id, fullName config pid tm id =
      appendPath (cStr config.logDirectory) (fileName config pid tm id) := by
    intro tm id
    rw [fullName, cStr_eq (nul_notMem_fileName tm id)]
  by_cases hroot : (config.name ++ ['_']).head? = some '/'
  · refine ⟨config.name, fun tm id => ?_⟩
    rw [hfull, appendPath, hhead, if_pos hroot, fileName_eq]
  · by_cases hdir : cStr config.logDirectory = [] ∨ (cStr config.logDirectory).getLast? = some '/'
    · refine ⟨cStr config.logDirectory ++ config.name, fun tm id => ?_⟩
      rw [hfull, appendPath, hhead, if_neg hroot, if_pos hdir, fileName_eq, List.append_assoc]
    · refine ⟨cStr config.logDirectory ++ '/' :: config.name, fun tm id => ?_⟩
      rw [hfull, appendPath, hhead, if_neg hroot, if_neg hdir, fileName_eq, List.append_assoc]
      rfl

lemma pathFilename_of_getLast {dir : Text} (h : dir = [] ∨ dir.getLast? = some '/') :
    pathFilename dir = [] := by
  obtain rfl | h := h
  · rfl
  · obtain ⟨front, rfl⟩ := List.getLast?_eq_some_iff.mp h
    simp [pathFilename]

lemma exists_archiveName (config : FileAppenderConfig) (pid : ℕ) (lz4Directory : Text) :
    ∃ front : Text, ∀ tm id, archiveName lz4Directory (fullName config pid tm id) =
      front ++ (nameTail pid tm id ++ archiveExtension) := by
  obtain ⟨front, hfront⟩ := exists_fullName config pid
  have hextension : '/' ∉ extension ∧ extension = '.' :: "log".toList := by decide
  have hfile : ∀ tm id, pathFilename (fullName config pid tm id) =
      (pathFilename front ++ nameTail pid tm id) ++ '.' :: "log".toList := by
    intro tm id
    have hslash : '/' ∉ nameTail pid tm id ++ extension := by
      simp [slash_notMem_nameTail, hextension.1]
    rw [hfront, pathFilename_append hslash, hextension.2, List.append_assoc]
  have hslash : ∀ tm id, '/' ∉ (pathFilename front ++ nameTail pid tm id) ++ '.' :: "log".toList := by
    intro tm id
    simp [slash_notMem_pathFilename, slash_notMem_nameTail]
  have hrel : ∀ tm id, ((pathFilename front ++ nameTail pid tm id) ++ '.' :: "log".toList).head? ≠
      some '/' := fun tm id h => hslash tm id (List.mem_of_mem_head? h)
  have hne : ∀ tm id, pathFilename front ++ nameTail pid tm id ≠ [] := by
    intro tm id
    simp [nameTail]
  have hname : ∀ dir : Text, pathFilename dir = [] → ∀ tm id,
      replaceExtension (dir ++ ((pathFilename front ++ nameTail pid tm id) ++ '.' :: "log".toList))
        archiveExtension = dir ++ pathFilename front ++ (nameTail pid tm id ++ archiveExtension) := by
    intro dir hdir tm id
    rw [replaceExtension_append hdir (hslash tm id) (hne tm id) (by decide) (by decide)]
    simp
  by_cases hdir : cStr lz4Directory = [] ∨ (cStr lz4Directory).getLast? = some '/'
  · refine ⟨cStr lz4Directory ++ pathFilename front, fun tm id => ?_⟩
    rw [archiveName, hfile, appendPath, if_neg (hrel tm id), if_pos hdir]
    exact hname _ (pathFilename_of_getLast hdir) tm id
  · refine ⟨cStr lz4Directory ++ ['/'] ++ pathFilename front, fun tm id => ?_⟩
    rw [archiveName, hfile, appendPath, if_neg (hrel tm id), if_neg hdir]
    have hdir' : pathFilename (cStr lz4Directory ++ ['/']) = [] :=
      pathFilename_of_getLast (Or.inr (by simp))
    have hall := hname (cStr lz4Directory ++ ['/']) hdir' tm id
    simpa using hall

lemma archiveName_inj {lz4Directory : Text} {tm tm' : Tm} {i j : ℕ}
    (h : archiveName lz4Directory (fullName config pid tm i) =
      archiveName lz4Directory (fullName config pid tm' j)) :
    fullName config pid tm i = fullName config pid tm' j := by
  obtain ⟨front, hfront⟩ := exists_fullName config pid
  obtain ⟨front', hfront'⟩ := exists_archiveName config pid lz4Directory
  rw [hfront', hfront'] at h
  have htail := List.append_cancel_right (List.append_cancel_left h)
  rw [hfront, hfront, htail]

end Simple.Log
