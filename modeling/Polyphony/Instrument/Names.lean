/-
# Names of the General MIDI instruments

The 128 names in program order, two rows to a family of eight:

| programs | family | programs | family |
| --- | --- | --- | --- |
| 0–7 | piano | 64–71 | reed |
| 8–15 | chromatic percussion | 72–79 | pipe |
| 16–23 | organ | 80–87 | synthetic lead |
| 24–31 | guitar | 88–95 | synthetic pad |
| 32–39 | bass | 96–103 | synthetic effects |
| 40–47 | strings | 104–111 | ethnic |
| 48–55 | ensemble | 112–119 | percussive |
| 56–63 | brass | 120–127 | sound effects |
-/

namespace Polyphony
namespace Instrument

/-- Names of the instruments, each at its program number. -/
def names : Vector String 128 :=
  #v[
    "PIANO", "BRIGHT_PIANO", "ELECTRIC_GRAND", "HONKY_TONK_PIANO",
    "ELECTRIC_PIANO_1", "ELECTRIC_PIANO_2", "HARPSICHORD", "CLAVINET",
    "CELESTA", "GLOCKENSPIEL", "MUSIC_BOX", "VIBRAPHONE",
    "MARIMBA", "XYLOPHONE", "TUBULAR_BELL", "DULCIMER",
    "HAMMOND_ORGAN", "PERC_ORGAN", "ROCK_ORGAN", "CHURCH_ORGAN",
    "REED_ORGAN", "ACCORDION", "HARMONICA", "TANGO_ACCORDION",
    "NYLON_STR_GUITAR", "STEEL_STRING_GUITAR", "JAZZ_ELECTRIC_GTR", "CLEAN_GUITAR",
    "MUTED_GUITAR", "OVERDRIVE_GUITAR", "DISTORTION_GUITAR", "GUITAR_HARMONICS",
    "ACOUSTIC_BASS", "FINGERED_BASS", "PICKED_BASS", "FRETLESS_BASS",
    "SLAP_BASS_1", "SLAP_BASS_2", "SYN_BASS_1", "SYN_BASS_2",
    "VIOLIN", "VIOLA", "CELLO", "CONTRABASS",
    "TREMOLO_STRINGS", "PIZZICATO_STRINGS", "ORCHESTRAL_HARP", "TIMPANI",
    "STRING_ENSEMBLE_1", "STRING_ENSEMBLE_2", "SYN_STRINGS_1", "SYN_STRINGS_2",
    "CHOIR_AAHS", "VOICE_OOHS", "SYN_CHOIR", "ORCHESTRA_HIT",
    "TRUMPET", "TROMBONE", "TUBA", "MUTED_TRUMPET",
    "FRENCH_HORN", "BRASS_SECTION", "SYN_BRASS_1", "SYN_BRASS_2",
    "SOPRANO_SAX", "ALTO_SAX", "TENOR_SAX", "BARITONE_SAX",
    "OBOE", "ENGLISH_HORN", "BASSOON", "CLARINET",
    "PICCOLO", "FLUTE", "RECORDER", "PAN_FLUTE",
    "BOTTLE_BLOW", "SHAKUHACHI", "WHISTLE", "OCARINA",
    "SQUARE_WAVE", "SAW_WAVE", "SYN_CALLIOPE", "CHIFFER_LEAD",
    "CHARANG", "SOLO_VOX", "FIFTH_SAW_WAVE", "BASS_AND_LEAD",
    "FANTASIA", "WARM_PAD", "POLYSYNTH", "SPACE_VOX",
    "BOWED_GLASS", "METAL_PAD", "HALO_PAD", "SWEEP_PAD",
    "ICE_RAIN", "SOUNDTRACK", "CRYSTAL", "ATMOSPHERE",
    "BRIGHTNESS", "GOBLIN", "ECHO_DROPS", "STAR_THEME",
    "SITAR", "BANJO", "SHAMISEN", "KOTO",
    "KALIMBA", "BAGPIPE", "FIDDLE", "SHANAI",
    "TINKLE_BELL", "AGOGO", "STEEL_DRUMS", "WOODBLOCK",
    "TAIKO_DRUM", "MELODIC_TOM", "SYN_DRUM", "REVERSE_CYMBAL",
    "GUITAR_FRET_NOISE", "BREATH_NOISE", "SEASHORE", "BIRD",
    "TELEPHONE", "HELICOPTER", "APPLAUSE", "GUNSHOT"
  ]

end Instrument
end Polyphony
