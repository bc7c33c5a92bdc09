import Rotor.Bytes

/-!
Slash-separated paths, as Go's `path/filepath` computes them on Unix.
-/

namespace Rotor.Path

def isAbs (path : Bytes) : Bool := path.head? == some 47

lemma isAbs_root : isAbs (str "/") := rfl

/-- `ToSlash` and `FromSlash`: the separator is a slash. -/
def toSlash (path : Bytes) : Bytes := path

def elements (path : Bytes) : List Bytes := path.splitOn 47

def joinSlash (elements : List Bytes) : Bytes := (str "/").intercalate elements

/-- What `Clean` does with one more element; those that are kept are in reverse order. -/
def cleanStep (rooted : Bool) (kept : List Bytes) (element : Bytes) : List Bytes :=
  if element = [] ∨ element = str "." then kept
  else if element = str ".." then
    match kept with
    | [] => if rooted then [] else [element]
    | last :: before => if last = str ".." then element :: kept else before
  else element :: kept

def clean (path : Bytes) : Bytes :=
  let kept := ((elements path).foldl (cleanStep (isAbs path)) []).reverse
  if isAbs path then 47 :: joinSlash kept
  else if kept = [] then str "."
  else joinSlash kept

/-- Empty elements in front are dropped. -/
def join (parts : List Bytes) : Bytes :=
  match parts.dropWhile (· == []) with
  | [] => []
  | parts => clean (joinSlash parts)

def lastElement (path : Bytes) : Bytes := (path.reverse.takeWhile (· != 47)).reverse

def base (path : Bytes) : Bytes :=
  if path = [] then str "."
  else
    let trimmed := (path.reverse.dropWhile (· == 47)).reverse
    if trimmed = [] then str "/" else lastElement trimmed

def ext (path : Bytes) : Bytes :=
  let last := lastElement path
  if last.contains 46 then 46 :: (last.reverse.takeWhile (· != 46)).reverse else []

def dir (path : Bytes) : Bytes := clean (path.reverse.dropWhile (· != 47)).reverse

/-- A relative path is taken from the working directory. -/
def abs (workingDirectory path : Bytes) : Bytes :=
  if isAbs path then clean path else join [workingDirectory, path]

def names (path : Bytes) : List Bytes :=
  if path = str "." then [] else (elements path).filter (· != [])

def dropCommon : List Bytes → List Bytes → List Bytes × List Bytes
  | first :: rest, first' :: rest' =>
    if first = first' then dropCommon rest rest' else (first :: rest, first' :: rest')
  | rest, rest' => (rest, rest')

/-- The way from `basepath` to `targpath`; none when it is not known how far up to go. -/
def rel (basepath targpath : Bytes) : Option Bytes :=
  let base := clean basepath
  let targ := clean targpath
  if targ = base then some (str ".")
  else if isAbs base != isAbs targ then none
  else
    let (up, down) := dropCommon (names base) (names targ)
    if up.head? = some (str "..") then none
    else some (joinSlash (List.replicate up.length (str "..") ++ down))

example : clean (str "/a/./b//../c/") = str "/a/c" := by decide
example : join [str "/p", str "../icons/a.png"] = str "/icons/a.png" := by decide
example : dir (str "/a/b.luau") = str "/a" ∧ dir (str "b.luau") = str "." := by decide
example : rel (str "/a/b") (str "/a/c/d") = some (str "../c/d") := by decide
example : rel (str "/") (str "/a") = some (str "a") ∧ rel (str "/a") (str "b") = none := by decide

end Rotor.Path
