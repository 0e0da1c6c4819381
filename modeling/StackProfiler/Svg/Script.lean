/-!
# The script of a document

Hovering over a frame outlines it and shows its tooltip in the details line; a search dims every
frame whose tooltip does not hold the term, and Escape ends the search.
-/

namespace StackProfiler.Svg

/-- The lines of the script element, which is the same in every document. -/
def scriptLines : List String :=
  ["<script type='text/javascript'><![CDATA[",
   "(function() \x7b",
   "  var frames = document.querySelectorAll('.frame');",
   "  var details = document.getElementById('details');",
   "  function reset() \x7b frames.forEach(function(f) \x7b f.style.opacity = '1'; \x7d); \x7d",
   "  frames.forEach(function(f) \x7b",
   "    f.style.cursor = 'pointer';",
   "    f.addEventListener('mouseover', function() \x7b",
   "      f.style.stroke = '#000'; f.style.strokeWidth = '0.5';",
   "      var t = f.parentNode.querySelector('title');",
   "      if (t && details) details.textContent = t.textContent;",
   "    \x7d);",
   "    f.addEventListener('mouseout', function() \x7b",
   "      f.style.stroke = 'none';",
   "      if (details) details.textContent = '';",
   "    \x7d);",
   "  \x7d);",
   "  document.addEventListener('keydown', function(e) \x7b",
   "    if (e.ctrlKey && e.key === 'f') \x7b",
   "      e.preventDefault();",
   "      var term = prompt('Search function name:');",
   "      if (!term) \x7b reset(); return; \x7d",
   "      term = term.toLowerCase();",
   "      frames.forEach(function(f) \x7b",
   "        var t = f.parentNode.querySelector('title');",
   "        var hit = t && t.textContent.toLowerCase().indexOf(term) >= 0;",
   "        f.style.opacity = hit ? '1' : '0.3';",
   "      \x7d);",
   "    \x7d",
   "    if (e.key === 'Escape') \x7b reset(); \x7d",
   "  \x7d);",
   "\x7d)();",
   "]]></script>"]

end StackProfiler.Svg
