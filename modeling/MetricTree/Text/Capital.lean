namespace MetricTree.Text

/-- The capital of a letter whose capital is an ASCII letter; any other character stays as it is. -/
def capital (c : Char) : Char :=
  if c = '\u0131' then 'I'
  else if c = '\u017F' then 'S'
  else c.toUpper

def capitals (s : String) : String := String.ofList (s.toList.map capital)

end MetricTree.Text
