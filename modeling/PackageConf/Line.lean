import PackageConf.FileSystem
import PackageConf.Text.Utf8
import PackageConf.Token
/-!
# Lines of bytes

A run of bytes is taken from the front of a file: up to and including the next line feed, but
never more than `window` bytes. Its content is what is left without the line end, and a content of
more than `maxLength` bytes is refused. The window leaves room for the longest content and its
line end, so no line that is accepted is ever cut.
-/
namespace PackageConf.Line

/-- The longest content of a line, in bytes. -/
def maxLength : Nat := 4096

/-- The most bytes taken at once: the longest content, a carriage return and a line feed. -/
def window : Nat := maxLength + 2

/-- Take bytes up to and including the first line feed, but at most `n`. -/
def take : Nat → Bytes → Bytes × Bytes
  | 0, bytes => ([], bytes)
  | _ + 1, [] => ([], [])
  | n + 1, b :: bytes =>
    if b = 0x0A then ([b], bytes) else (b :: (take n bytes).1, (take n bytes).2)

/-- A run without its line feed and the carriage return before it. A carriage return that no line
feed follows belongs to the content. -/
def content (run : Bytes) : Bytes :=
  match run.reverse with
  | 0x0A :: 0x0D :: rest => rest.reverse
  | 0x0A :: rest => rest.reverse
  | _ => run

/-- What a run of bytes says as line number `line`. -/
def token (run : Bytes) (line : Nat) : Except ConfigError Token :=
  if maxLength < (content run).length then .error (.lineTooLong line)
  else Token.ofLine (Text.decode (content run)) line

theorem take_append (n : Nat) (bytes : Bytes) : (take n bytes).1 ++ (take n bytes).2 = bytes := by
  fun_induction take n bytes with
  | case1 => rfl
  | case2 => rfl
  | case3 => rfl
  | case4 n b bytes hb ih => simpa using ih

theorem take_eq_nil_iff {n : Nat} {bytes : Bytes} (hn : 0 < n) :
    (take n bytes).1 = [] ↔ bytes = [] := by
  cases n with
  | zero => omega
  | succ n => cases bytes with
    | nil => simp [take]
    | cons b bytes => simp only [take]; split <;> simp

/-- The runs that some bytes are taken in, one after the other. -/
def runs (bytes : Bytes) : List Bytes :=
  match _h : take window bytes with
  | ([], _) => []
  | (b :: run, rest) => (b :: run) :: runs rest
termination_by bytes.length
decreasing_by
  have happ := take_append window bytes
  rw [_h] at happ
  simp only [← happ, List.length_append, List.length_cons]
  omega

theorem flatten_runs (bytes : Bytes) : (runs bytes).flatten = bytes := by
  fun_induction runs bytes with
  | case1 bytes rest h =>
    have hnil : (take window bytes).1 = [] := by rw [h]
    rw [(take_eq_nil_iff (by decide)).1 hnil]
    rfl
  | case2 bytes b run rest h ih =>
    have happ := take_append window bytes
    rw [h] at happ
    rw [List.flatten_cons, ih, happ]

end PackageConf.Line
